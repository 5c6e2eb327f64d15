import Bundler.Path
import Bundler.Text.Utf8
/-!
# A tree of files

The files and directories that the program works on, as a value. A `Location` is the list of names
from the top; an entry is a directory or a file with its bytes. Paths are followed from the top,
name by name, and the operations fail the way a POSIX file system makes them fail, in the same
order of checks. A file can have several names: what is written under one of them is read under all.
There are no symbolic links, and nobody is denied anything for want of a permission except to run a
file that nobody may run.
-/

namespace Bundler

/-- Why a file operation failed. -/
inductive IoError where
  | notFound
  | permissionDenied
  | alreadyExists
  | notADirectory
  | isADirectory
  | nameTooLong
  /-- The path holds a zero byte. -/
  | nulInPath
  /-- A program's name or one of its arguments holds a zero byte. -/
  | nulInArgument
  /-- The source of a copy is a directory. -/
  | notARegularFile
  /-- A file that is to be run is no program. -/
  | notAProgram
  deriving DecidableEq, Repr

/-- The wording of the system. -/
def IoError.message : IoError → String
  | .notFound => "No such file or directory (os error 2)"
  | .permissionDenied => "Permission denied (os error 13)"
  | .alreadyExists => "File exists (os error 17)"
  | .notADirectory => "Not a directory (os error 20)"
  | .isADirectory => "Is a directory (os error 21)"
  | .nameTooLong => "File name too long (os error 36)"
  | .nulInPath => "file name contained an unexpected NUL byte"
  | .nulInArgument => "nul byte found in provided data"
  | .notARegularFile => "the source path is neither a regular file nor a symlink to a regular file"
  | .notAProgram => "Exec format error (os error 8)"

/-- The names from the top of the tree down to an entry. -/
abbrev Location := List String

/-- A directory or a file. -/
inductive Node where
  | directory
  | file (content : Bytes)
  deriving DecidableEq, Repr

/-- Everything below the top directory, which is always there. -/
structure FileTree where
  entries : List (Location × Node)
  /-- The names of files that have more than one, file by file. -/
  links : List (List Location)
  /-- The permission bits of entries that do not have the usual ones. -/
  modes : List (Location × Nat)
  deriving DecidableEq, Repr, Inhabited

namespace FileTree

/-- The tree without any entry. -/
def empty : FileTree := ⟨[], [], []⟩

/-- What is at a location. -/
def node? (t : FileTree) (l : Location) : Option Node :=
  if l = [] then some .directory else t.entries.lookup l

/-- All names of the file at a location. -/
def names (t : FileTree) (l : Location) : List Location :=
  (t.links.find? fun group => group.contains l).getD [l]

/-- Puts a node at a location and at all other names of the file there, in the place of what was
there. -/
def put (t : FileTree) (l : Location) (n : Node) : FileTree :=
  let names := t.names l
  { t with entries := names.map (·, n) ++ t.entries.filter fun e => e.1 ∉ names }

/-- Moves entries: each one goes where a function says, or away. -/
def reindex (t : FileTree) (f : Location → Option Location) : FileTree where
  entries := t.entries.filterMap fun e => (f e.1).map (·, e.2)
  links := (t.links.map (·.filterMap f)).filter (1 < ·.length)
  modes := t.modes.filterMap fun e => (f e.1).map (·, e.2)

/-- Takes one entry away. -/
def erase (t : FileTree) (l : Location) : FileTree :=
  t.reindex fun m => if m = l then none else some m

/-- Takes an entry away with all that is below it. -/
def eraseBelow (t : FileTree) (l : Location) : FileTree :=
  t.reindex fun m => if l.isPrefixOf m then none else some m

/-- Moves an entry, with all that is below it, in the place of what is at another location. -/
def relocate (t : FileTree) (l m : Location) : FileTree :=
  (t.eraseBelow m).reindex fun k => if l.isPrefixOf k then some (m ++ k.drop l.length) else some k

/-- Gives the file at a location one more name. -/
def link (t : FileTree) (l m : Location) : FileTree :=
  match t.node? l with
  | none => t
  | some n =>
    let names := t.names l
    let mode := (t.modes.lookup l).toList.map (m, ·)
    ⟨(m, n) :: t.entries, (m :: names) :: t.links.filter (· ≠ names), mode ++ t.modes⟩

/-- The permission bits of an entry. -/
def mode (t : FileTree) (l : Location) : Nat :=
  (t.modes.lookup l).getD (if t.node? l = some .directory then 0o755 else 0o644)

/-- Sets the permission bits of an entry. -/
def setMode (t : FileTree) (l : Location) (bits : Nat) : FileTree :=
  let names := t.names l
  { t with modes := names.map (·, bits) ++ t.modes.filter fun e => e.1 ∉ names }

/-! ## Following paths -/

/-- The longest name of one entry, in bytes. -/
def maxName : Nat := 255

/-- The longest path, in bytes. -/
def maxPath : Nat := 4095

/-- The pieces of a path that the system takes at all. -/
def pieces (p : Path) : Except IoError (List String) :=
  if p.text.toList.contains (Char.ofNat 0) then .error .nulInPath
  else if p.text = "" then .error .notFound
  else if maxPath < p.text.utf8ByteSize then .error .nameTooLong
  else .ok p.pieces

/-- Follows the pieces of a path from a location. Each step is taken in a directory; an empty piece
or a dot stays there. -/
def follow (t : FileTree) : Location → List String → Except IoError Location
  | here, [] => if (t.node? here).isSome then .ok here else .error .notFound
  | here, piece :: rest =>
    match t.node? here with
    | none => .error .notFound
    | some (.file _) => .error .notADirectory
    | some .directory =>
      if piece = "" ∨ piece = "." then t.follow here rest
      else if piece = ".." then t.follow here.dropLast rest
      else if maxName < piece.utf8ByteSize then .error .nameTooLong
      else t.follow (here ++ [piece]) rest

/-- The entry that a path denotes. -/
def locate (t : FileTree) (p : Path) : Except IoError Location :=
  match pieces p with
  | .error e => .error e
  | .ok ps => t.follow [] ps

/-- What a path denotes for an operation that may make or remove it: a place that can only be a
directory, or a name in a directory, perhaps with a slash behind it. -/
inductive Target where
  | directory (l : Location)
  | name (parent : Location) (name : String) (slash : Bool)
  deriving DecidableEq, Repr

/-- Follows all but the last name of a path. -/
def aim (t : FileTree) (p : Path) : Except IoError Target :=
  match pieces p with
  | .error e => .error e
  | .ok ps =>
    match ps.reverse.dropWhile (· = "") with
    | [] => .ok (.directory [])
    | last :: front =>
      if last = "." ∨ last = ".." then (t.follow [] ps).map .directory
      else
        match t.follow [] front.reverse with
        | .error e => .error e
        | .ok parent =>
          match t.node? parent with
          | none => .error .notFound
          | some (.file _) => .error .notADirectory
          | some .directory =>
            if maxName < last.utf8ByteSize then .error .nameTooLong
            else .ok (.name parent last (ps.getLast? = some ""))

/-! ## Looking -/

/-- What a path denotes, if it denotes anything. -/
def at? (t : FileTree) (p : Path) : Option Node :=
  match t.locate p with
  | .error _ => none
  | .ok l => t.node? l

/-- Whether a path denotes an entry. -/
def contains (t : FileTree) (p : Path) : Bool := (t.at? p).isSome

/-- Whether a path denotes a directory. -/
def isDirectory (t : FileTree) (p : Path) : Bool := t.at? p = some .directory

/-- Whether a path denotes a file. -/
def isFile (t : FileTree) (p : Path) : Bool :=
  match t.at? p with
  | some (.file _) => true
  | _ => false

/-- The content of a file. -/
def read (t : FileTree) (p : Path) : Except IoError Bytes :=
  match t.locate p with
  | .error e => .error e
  | .ok l =>
    match t.node? l with
    | none => .error .notFound
    | some .directory => .error .isADirectory
    | some (.file content) => .ok content

/-- Locations in path order: name by name. -/
def compareLocations (l m : Location) : Ordering := List.compareLex Ord.compare l m

/-- All entries below a location, relative to it, in path order. -/
def below (t : FileTree) (l : Location) : List (Location × Node) :=
  let inside := t.entries.filterMap fun e =>
    if l.isPrefixOf e.1 ∧ l.length < e.1.length then some (e.1.drop l.length, e.2) else none
  inside.mergeSort fun a b => (compareLocations a.1 b.1).isLE

/-- All files below a location, relative to it, in path order. -/
def filesBelow (t : FileTree) (l : Location) : List Location :=
  (t.below l).filterMap fun e =>
    match e.2 with
    | .directory => none
    | .file _ => some e.1

/-! ## Changing -/

/-- Makes or replaces a file. -/
def write (t : FileTree) (p : Path) (content : Bytes) : Except IoError FileTree :=
  match t.aim p with
  | .error e => .error e
  | .ok (.directory _) => .error .isADirectory
  | .ok (.name parent name slash) =>
    if slash then .error .isADirectory
    else
      match t.node? (parent ++ [name]) with
      | some .directory => .error .isADirectory
      | _ => .ok (t.put (parent ++ [name]) (.file content))

/-- Makes one directory. -/
def makeDirectory (t : FileTree) (p : Path) : Except IoError FileTree :=
  match t.aim p with
  | .error e => .error e
  | .ok (.directory _) => .error .alreadyExists
  | .ok (.name parent name _) =>
    match t.node? (parent ++ [name]) with
    | some _ => .error .alreadyExists
    | none => .ok (t.put (parent ++ [name]) .directory)

/-- Makes a directory unless it is there already. -/
def ensureDirectory (t : FileTree) (p : Path) : Except IoError FileTree :=
  match t.makeDirectory p with
  | .ok t' => .ok t'
  | .error e => if t.isDirectory p then .ok t else .error e

/-- A path and its parents, the nearest first, at most as many as the first argument says. -/
def ancestry : Nat → Path → List Path
  | 0, p => [p]
  | n + 1, p =>
    match p.parent? with
    | none => [p]
    | some parent => p :: ancestry n parent

/-- Makes the first directory of a list after the directories behind it, as far as they are missing.
An empty path stands for the directory one is in. -/
def ensureAll (t : FileTree) : List Path → FileTree × Except IoError Unit
  | [] => (t, .ok ())
  | p :: parents =>
    if p.text = "" then (t, .ok ())
    else
      match t.ensureDirectory p with
      | .ok t' => (t', .ok ())
      | .error .notFound =>
        match t.ensureAll parents with
        | (t', .error e) => (t', .error e)
        | (t', .ok ()) =>
          match t'.ensureDirectory p with
          | .ok t'' => (t'', .ok ())
          | .error e => (t', .error e)
      | .error e => (t, .error e)

/-- Makes a directory and its missing parents. Parents made before a failure stay. -/
def makeDirectories (t : FileTree) (p : Path) : FileTree × Except IoError Unit :=
  t.ensureAll (ancestry p.components.length p)

/-- Makes the directory that a path lies in. -/
def makeParent (t : FileTree) (p : Path) : FileTree × Except IoError Unit :=
  match p.parent? with
  | none => (t, .ok ())
  | some dir => t.makeDirectories dir

/-- Copies a file with its permission bits over another one. The target is emptied before the source
is read, so a file that is copied onto itself ends up empty. -/
def copy (t : FileTree) (src dst : Path) : Except IoError FileTree :=
  match t.locate src with
  | .error e => .error e
  | .ok l =>
    match t.node? l with
    | none => .error .notFound
    | some .directory => .error .notARegularFile
    | some (.file _) =>
      match t.write dst [] with
      | .error e => .error e
      | .ok emptied =>
        let marked :=
          match emptied.locate dst with
          | .ok m =>
            if emptied.mode m = t.mode l then emptied else emptied.setMode m (t.mode l)
          | .error _ => emptied
        match marked.node? l with
        | some (.file content) => marked.write dst content
        | _ => .ok marked

/-- Removes a file. -/
def removeFile (t : FileTree) (p : Path) : Except IoError FileTree :=
  match t.aim p with
  | .error e => .error e
  | .ok (.directory _) => .error .isADirectory
  | .ok (.name parent name slash) =>
    match t.node? (parent ++ [name]) with
    | none => .error .notFound
    | some .directory => .error .isADirectory
    | some (.file _) => if slash then .error .notADirectory else .ok (t.erase (parent ++ [name]))

/-- The one spelling of an existing path that has neither dots nor repeated slashes. -/
def canonical (t : FileTree) (p : Path) : Except IoError Path :=
  (t.locate p).map fun l => ⟨"/" ++ "/".intercalate l⟩

/-! ## What the operations do to an entry -/

theorem lookup_map_pair {l : List Location} (n : Node) (es : List (Location × Node)) (m : Location) :
    (l.map (·, n) ++ es).lookup m = if m ∈ l then some n else es.lookup m := by
  induction l with
  | nil => simp
  | cons k ks ih =>
    by_cases hm : m = k
    · simp [hm]
    · have hk : (m == k) = false := by simpa using hm
      simp only [List.map_cons, List.cons_append, List.lookup_cons, hk, ih]
      simp [hm]

theorem lookup_filter_notMem {l : List Location} (es : List (Location × Node)) {m : Location}
    (hm : m ∉ l) : (es.filter fun e => e.1 ∉ l).lookup m = es.lookup m := by
  induction es with
  | nil => rfl
  | cons e es ih =>
    by_cases he : e.1 ∈ l
    · have hme : (m == e.1) = false := by
        simp only [beq_eq_false_iff_ne, ne_eq]
        intro h
        exact hm (h ▸ he)
      rw [List.filter_cons_of_neg (by simp [he]), ih, List.lookup_cons, hme]
    · rw [List.filter_cons_of_pos (by simp [he]), List.lookup_cons, List.lookup_cons, ih]

/-- A file is written under all its names, and nothing else is changed. -/
theorem node?_put (t : FileTree) (l : Location) (n : Node) {m : Location} (hm : m ≠ []) :
    (t.put l n).node? m = if m ∈ t.names l then some n else t.node? m := by
  simp only [node?, put, hm, if_false, lookup_map_pair]
  by_cases h : m ∈ t.names l
  · rw [if_pos h, if_pos h]
  · rw [if_neg h, if_neg h, lookup_filter_notMem _ h]

end FileTree
end Bundler
