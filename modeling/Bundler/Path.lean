/-!
# Paths

A `Path` keeps the text it was made with. What it denotes is its list of `components`: repeated and
trailing slashes and inner dots are ignored, a leading dot counts. Two paths are the `Same` when
their components are, and they are ordered component by component. `normalize` resolves `.` and `..`
in the text alone, without a look at any file.
-/

namespace Bundler

/-- A file path as it was spelled. -/
structure Path where
  text : String
  deriving DecidableEq, Repr, Inhabited

namespace Path

/-- One step of a path. -/
inductive Component where
  /-- The slash that begins an absolute path. -/
  | root
  /-- A leading `.`. -/
  | here
  /-- A `..`. -/
  | up
  /-- A file or directory name. -/
  | name (name : String)
  deriving DecidableEq, Repr

/-- The text between slashes, empty pieces included. -/
def splitSlash : List Char → List (List Char)
  | [] => [[]]
  | c :: rest =>
    match splitSlash rest with
    | [] => [[c]]
    | piece :: pieces => if c = '/' then [] :: piece :: pieces else (c :: piece) :: pieces

/-- The pieces of the text between slashes. -/
def pieces (p : Path) : List String := (splitSlash p.text.toList).map String.ofList

/-- Whether the text begins with a slash. -/
def isAbsolute (p : Path) : Bool := p.text.toList.head? == some '/'

/-- The component of a piece that is not the first one. -/
def Component.ofPiece (piece : String) : Option Component :=
  if piece = "" ∨ piece = "." then none
  else if piece = ".." then some .up
  else some (.name piece)

/-- What the path denotes, step by step. -/
def components (p : Path) : List Component :=
  match p.pieces with
  | [] => []
  | first :: rest =>
    let inner := rest.filterMap Component.ofPiece
    if p.isAbsolute then .root :: inner
    else if first = "." then .here :: inner
    else (Component.ofPiece first).toList ++ inner

/-- A component as it is spelled after a slash. -/
def Component.text : Component → String
  | .root => ""
  | .here => "."
  | .up => ".."
  | .name s => s

/-- The shortest path with the given components. -/
def ofComponents : List Component → Path
  | .root :: rest => ⟨"/" ++ "/".intercalate (rest.map Component.text)⟩
  | cs => ⟨"/".intercalate (cs.map Component.text)⟩

/-- Two spellings of one path. -/
def Same (p q : Path) : Prop := p.components = q.components

instance (p q : Path) : Decidable (Same p q) := inferInstanceAs (Decidable (_ = _))

/-! ## Order -/

/-- Root first, then a leading dot, then `..`, then names by their characters. -/
def Component.compare : Component → Component → Ordering
  | .root, .root => .eq
  | .root, _ => .lt
  | .here, .root => .gt
  | .here, .here => .eq
  | .here, _ => .lt
  | .up, .root => .gt
  | .up, .here => .gt
  | .up, .up => .eq
  | .up, .name _ => .lt
  | .name a, .name b => Ord.compare a b
  | .name _, _ => .gt

/-- Component by component; a shorter path comes before its continuations. -/
def compare (p q : Path) : Ordering :=
  List.compareLex Component.compare p.components q.components

/-! ## Parts of a path -/

/-- The path `q` seen from `p`: an absolute `q` stands for itself. -/
def join (p q : Path) : Path :=
  if q.isAbsolute then q
  else if p.text.toList = [] ∨ p.text.toList.getLast? = some '/' then ⟨p.text ++ q.text⟩
  else ⟨p.text ++ "/" ++ q.text⟩

/-- The path without its last component; the root and the empty path have none. -/
def parent? (p : Path) : Option Path :=
  match p.components.getLast? with
  | none => none
  | some .root => none
  | some _ => some (ofComponents p.components.dropLast)

/-- The name at the end of the path. -/
def fileName? (p : Path) : Option String :=
  match p.components.getLast? with
  | some (.name s) => some s
  | _ => none

/-- A name cut at its last dot. A dot at its start does not cut. -/
def splitExtension (name : String) : String × Option String :=
  let reversed := name.toList.reverse
  match reversed.dropWhile (· ≠ '.') with
  | [] => (name, none)
  | [_] => (name, none)
  | _ :: stem =>
    (String.ofList stem.reverse, some (String.ofList (reversed.takeWhile (· ≠ '.')).reverse))

/-- The last name without its extension. -/
def stem? (p : Path) : Option String := p.fileName?.map fun name => (splitExtension name).1

/-- What follows the last dot of the last name. -/
def extension? (p : Path) : Option String := p.fileName?.bind fun name => (splitExtension name).2

/-! ## Normal form -/

/-- Takes one more component. The components so far come with the last one first: a `..` removes
a name, stays at the root, and is kept where nothing is left to remove. -/
def descend : List Component → Component → List Component
  | _, .root => [.root]
  | taken, .here => taken
  | .name _ :: taken, .up => taken
  | .root :: taken, .up => .root :: taken
  | taken, .up => .up :: taken
  | taken, .name s => .name s :: taken

/-- The path with `.` and `..` resolved in its text. -/
def normalize (p : Path) : Path :=
  ofComponents ((p.components.foldl descend []).reverse)

end Path
end Bundler
