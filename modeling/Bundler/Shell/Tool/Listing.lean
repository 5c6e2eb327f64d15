import Bundler.Shell.Tool.Call
import Bundler.Shell.Tool.Mode
import Bundler.Shell.Tool.Moment
import Bundler.Shell.Tool.Names
/-!
# Listing files

`ls` shows files and what is in directories, one entry to a line, in the order that options ask for.
-/

namespace Bundler.Shell

/-- An entry as it is listed. -/
structure Listed where
  name : Octets
  status : Status
  links : Nat

/-- The options of `ls`. -/
def listOptions : OptionTable :=
  optionTable "1aABbcCdfFgGhHiI:klLmnNopqQrRsStT:uUvw:xXZ"
    ["a=all", "A=almost-all", "B=ignore-backups", "color?", "d=directory", "classify?",
      "file-type", "format:", "group-directories-first", "h=human-readable", "I=ignore:",
      "indicator-style:", "i=inode", "m=commas", "N=literal", "Q=quote-name", "R=recursive",
      "r=reverse", "sort:", "time:", "w=width:", "x=across", "l=long"]

/-- The part of a name behind its last dot, with the dot. -/
def extensionOf (name : Octets) : Octets :=
  let rest := name.reverse.takeWhile (· ≠ '.')
  if rest.length < name.length then '.' :: rest.reverse else []

/-- Whether one entry is listed before another. -/
def listedBefore (a : Arguments) (x y : Listed) : Bool :=
  let byName := Octets.compare x.name y.name
  let sort := ((a.value? "sort").map String.ofList).getD ""
  let order : Ordering :=
    match a.lastOf "StUXv", sort with
    | some 'S', _ => (compare y.status.size x.status.size).then byName
    | some 't', _ => (compare y.status.time x.status.time).then byName
    | some 'X', _ => (Octets.compare (extensionOf x.name) (extensionOf y.name)).then byName
    | none, "size" => (compare y.status.size x.status.size).then byName
    | none, "time" => (compare y.status.time x.status.time).then byName
    | none, "extension" => (Octets.compare (extensionOf x.name) (extensionOf y.name)).then byName
    | _, _ => byName
  let order := if a.has "r" then order.swap else order
  let group (e : Listed) : Nat := if e.status.kind = .directory then 0 else 1
  let order :=
    if a.has "group-directories-first" then (compare (group x) (group y)).then order else order
  order.isLE

/-- The kind of an entry as the first letter of a long line. -/
def Kind.letter : Kind → Char
  | .file => '-'
  | .directory => 'd'
  | .device => 'c'
  | .pipe => 'p'

/-- The name of an entry with the sign of its kind, if that is wanted. -/
def shownName (a : Arguments) (e : Listed) : Octets :=
  let name := if a.has "Q" then '"' :: e.name ++ ['"'] else e.name
  let all := a.has "F" || a.has "classify"
  let sign : Octets :=
    if e.status.kind = .directory then (if all || a.has "p" || a.has "file-type" then ['/'] else [])
    else if all && e.status.kind = .file && e.status.mode &&& 0o111 ≠ 0 then ['*']
    else if all && e.status.kind = .pipe then ['|']
    else []
  name ++ sign

/-- A text at the end of a column. -/
def atRight (width : Nat) (s : Octets) : Octets := List.replicate (width - s.length) ' ' ++ s

/-- How many units of 1024 characters the content of an entry takes. -/
def blocksOf (s : Status) : Nat :=
  if s.kind = .directory then 4 else (s.size + 4095) / 4096 * 4

/-- The lines of a long list. -/
def longLines (a : Arguments) (entries : List Listed) : List Octets :=
  let widest (f : Listed → Octets) : Nat := (entries.map fun e => (f e).length).foldl max 0
  let links (e : Listed) : Octets := .ofNat e.links
  let size (e : Listed) : Octets := .ofNat e.status.size
  let (linkWidth, sizeWidth) := (widest links, widest size)
  let user := if a.has "n" then "0" else "root"
  entries.map fun e =>
    let owner := if a.has "g" then [] else user.toList ++ [' ']
    let group := if a.hasAny "oG" then [] else user.toList ++ [' ']
    e.status.kind.letter :: shownMode e.status.mode ++ ' ' :: atRight linkWidth (links e) ++
      ' ' :: owner ++ group ++ atRight sizeWidth (size e) ++ ' ' ::
      (Moment.ofSeconds (e.status.time / 1000000)).listed ++ ' ' :: shownName a e

/-- The lines of a list. -/
def listLines (a : Arguments) (entries : List Listed) : Octets :=
  if entries.isEmpty then []
  else if a.hasAny "lgno" then Octets.unlines (longLines a entries)
  else if a.lastOf "1mCx" = some 'm' then
    Octets.joined ", ".toList (entries.map (shownName a)) ++ ['\n']
  else Octets.unlines (entries.map (shownName a))

/-- The entry of a path, under a name. -/
def listedAt? (w : World) (streams : List (Nat × Nat)) (p : Path) (name : Octets) : Option Listed :=
  (w.status? streams p).map fun s =>
    let links := match s.location with
      | none => 1
      | some l =>
        if s.kind = .directory then
          2 + (w.tree.below l).countP fun e => e.1.length = 1 && e.2 = .directory
        else (w.tree.names l).length
    ⟨name, s, links⟩

/-- The entries of a directory that are listed. -/
def entriesIn (a : Arguments) (w : World) (directory : Path) (arg : Octets) : List Listed :=
  let names := ((w.tree.locate (pathOf directory arg)).toOption.map fun l =>
    (w.tree.below l).filterMap fun e =>
      match e.1 with
      | [name] => some (Octets.ofText name)
      | _ => none).getD []
  let all := match a.lastOf "aAf" with
    | some 'A' => false
    | o => o.isSome
  let shown := names.filter fun name =>
    (all || a.has "A" || name.head? ≠ some '.') &&
      ! (a.has "B" && name.getLast? = some '~')
  let dots := if all then [".".toList, "..".toList] else []
  let entries := (dots ++ shown).filterMap fun name =>
    listedAt? w [] (pathOf directory (inside arg name)) name
  if a.hasAny "Uf" then entries else entries.mergeSort (listedBefore a)

/-- What is shown for directories, one after the other; with `-R` also for those that are in them.
The first argument bounds how deep those are. -/
def listDirectories (a : Arguments) (w : World) (directory : Path) (headed : Bool) :
    Nat → List Octets → List Octets
  | 0, _ => []
  | n + 1, names => names.flatMap fun name =>
    let entries := entriesIn a w directory name
    let total := if a.hasAny "lgnos" then
        "total ".toList ++ Octets.ofNat (Octets.total (entries.map fun e => blocksOf e.status)) ++ ['\n']
      else []
    let head := if headed then name ++ ":\n".toList else []
    let inner := if ! a.has "R" then []
      else (entries.filter fun e => e.status.kind = .directory && ! isDots e.name).map fun e =>
        inside name e.name
    (head ++ total ++ listLines a entries) :: listDirectories a w directory headed n inner

/-- Shows files, and what is in directories. -/
def Tool.ls : Tool := fun call =>
  withOptionsOr 2 false listOptions call fun a => do
    let w ← Work.world
    let streams ← Work.streams
    let args := if a.operands.isEmpty then [['.']] else a.operands
    let found := args.filterMap fun arg => listedAt? w streams (call.path arg) arg
    let missing := args.filter fun arg => (w.status? streams (call.path arg)).isNone
    for arg in missing do
      let e := match w.tree.locate (call.path arg) with
        | .error e => e
        | .ok _ => .notFound
      call.complain (about "cannot access" arg e)
    let found := if a.hasAny "Uf" then found else found.mergeSort (listedBefore a)
    let isPlain (e : Listed) : Bool := a.has "d" || e.status.kind ≠ .directory
    let plain := found.filter isPlain
    let directories := (found.filter (! isPlain ·)).map (·.name)
    call.put (listLines a plain)
    let headed := 1 < args.length || a.has "R"
    let depth := if a.has "R" then w.tree.entries.length + 1 else 1
    let blocks := listDirectories a w call.directory headed depth directories
    let start : Octets := if plain.isEmpty || directories.isEmpty then [] else ['\n']
    call.put (start ++ Octets.joined ['\n'] blocks)
    return if missing.isEmpty then 0 else 2

end Bundler.Shell
