import Bundler.Shell.World
/-!
# Finding programs

A program is a file that may be run. It is found by its path, or by its name in the directories of a
search path. What is in the file says which tool it is, or which program reads it as a script.
-/

namespace Bundler.Shell

/-- What the file of a tool begins with; the name of the tool follows. -/
def toolMark : Octets := Char.ofNat 0x7F :: "ELF".toList

/-- The content of the file of a tool. -/
def toolContent (name : String) : Bytes := Octets.toBytes (toolMark ++ name.toList)

/-- The directories that programs are found in if nothing else is said. -/
def defaultPath : Octets := "/usr/local/sbin:/usr/local/bin:/usr/sbin:/usr/bin:/sbin:/bin".toList

/-- Directories of the system. -/
def systemDirectories : List String :=
  ["bin", "dev", "etc", "home", "lib", "proc", "root", "sbin", "tmp", "usr", "usr/bin", "usr/lib",
    "usr/local", "usr/local/bin", "usr/sbin", "usr/share", "var", "var/tmp"]

/-- Files of the system that are no tools. -/
def systemFiles : List String := ["etc/group", "etc/hostname", "etc/hosts", "etc/passwd"]

/-- The entries that the system has beside those of a tree, with the tools that there are. -/
def systemEntries (tools : List String) : List (Location × Node) :=
  let location (s : String) : Location := (Octets.pieces (· == '/') s.toList).map String.ofList
  let places : List Location := [["bin"], ["usr", "bin"]]
  systemDirectories.map (fun d => (location d, .directory)) ++
    systemFiles.map (fun f => (location f, .file [0x0A])) ++
    tools.flatMap fun name => places.map fun p => (p ++ [name], .file (toolContent name))

/-- A tree with the entries of the system in it, as far as their places are free. -/
def withSystem (tools : List String) (t : FileTree) : FileTree :=
  let added := (systemEntries tools).filter fun e => (t.node? e.1).isNone
  { t with
    entries := t.entries ++ added
    modes := t.modes ++ added.filterMap fun (l, n) =>
      match n with
      | .file (_ :: _ :: _) => some (l, 0o755)
      | _ => none }

/-- A tree without the entries of the system that another one did not have. -/
def withoutSystem (tools : List String) (before t : FileTree) : FileTree :=
  let added := ((systemEntries tools).map (·.1)).filter fun l => (before.node? l).isNone
  let kept := t.entries.filter fun e => ! added.contains e.1
  { t with entries := kept, modes := t.modes.filter fun e => ! added.contains e.1 }

/-! ## Running a file -/

/-- The program that a file is, and what it gets: the name of a tool, or a script. -/
inductive Image where
  | tool (name : String)
  /-- The line that says which program reads the script, cut behind the program. -/
  | script (interpreter : Octets) (argument : Option Octets)
  | unknown
  deriving DecidableEq, Repr

/-- What the content of a file is as a program. -/
def Image.ofContent (content : Octets) : Image :=
  if toolMark.isPrefixOf content then .tool (String.ofList (content.drop toolMark.length))
  else
    match content with
    | '#' :: '!' :: rest =>
      let isBlank (c : Char) := c == ' ' || c == '\t'
      let line := (rest.takeWhile (· ≠ '\n')).dropWhile isBlank
      let interpreter := line.takeWhile (! isBlank ·)
      let argument := (line.drop interpreter.length).dropWhile isBlank
      let argument := (argument.reverse.dropWhile isBlank).reverse
      if interpreter.isEmpty then .unknown
      else .script interpreter (if argument.isEmpty then none else some argument)
    | _ => .unknown

/-- The tool that runs for a program, and the program as the tool sees it. The first argument bounds
how often a script is read by another script. -/
def World.load (w : World) (directory : Path) : Nat → Program → Except IoError (String × Program)
  | 0, _ => .error .notAProgram
  | n + 1, program =>
    let p := pathOf directory program.path
    if isDevice p then .error .permissionDenied
    else
      match w.tree.locate p with
      | .error e => .error e
      | .ok l =>
        match w.tree.node? l with
        | some (.file content) =>
          if w.tree.mode l &&& 0o111 = 0 then .error .permissionDenied
          else
            match Image.ofContent (.ofBytes content) with
            | .tool name => .ok (name, program)
            | .script interpreter argument =>
              w.load directory n { program with
                path := interpreter
                name := interpreter
                args := argument.toList ++ program.path :: program.args }
            | .unknown => .error .notAProgram
        | _ => .error .permissionDenied

/-- How often a script is read by another script at most. -/
def maxInterpreters : Nat := 5

/-! ## Search paths -/

/-- Whether a path is that of a file that may be run, or why not. -/
def World.runnable (w : World) (directory : Path) (path : Octets) : Except IoError Unit :=
  match w.tree.locate (pathOf directory path) with
  | .error e => .error e
  | .ok l =>
    match w.tree.node? l with
    | some (.file _) =>
      if w.tree.mode l &&& 0o111 = 0 then .error .permissionDenied else .ok ()
    | _ => .error .permissionDenied

/-- The first of some paths that can be run. Where there is none, the last obstacle that is more than
a missing file. -/
def World.firstRunnable (w : World) (directory : Path) : IoError → List Octets → Except IoError Octets
  | e, [] => .error e
  | e, path :: more =>
    match w.runnable directory path with
    | .ok () => .ok path
    | .error f =>
      w.firstRunnable directory (if f = .notFound || f = .notADirectory then e else f) more

/-- The path of a program with a name, in the directories of a search path. -/
def World.search (w : World) (directory : Path) (searchPath name : Octets) : Except IoError Octets :=
  if name.isEmpty then .error .notFound
  else
    w.firstRunnable directory .notFound ((Octets.pieces (· == ':') searchPath).map fun dir =>
      if dir.isEmpty then name
      else if dir.getLast? = some '/' then dir ++ name
      else dir ++ '/' :: name)

/-- The path of a program that is given by its path or its name. -/
def World.programPath (w : World) (directory : Path) (searchPath name : Octets) :
    Except IoError Octets :=
  if name.contains '/' then .ok name
  else if FileTree.maxName < name.length then .error .nameTooLong
  else w.search directory searchPath name

end Bundler.Shell
