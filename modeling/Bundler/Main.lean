import Bundler.CommandLine.Run
import Bundler.FileTree.Changes
import Bundler.Shell.Run
/-!
# The program

Takes in the files below the working directory and below the project root, runs the call on them,
carries out what has changed, and prints what the call prints.
-/

namespace Bundler.CommandLine

/-- The names on the way to an absolute path. -/
def locationOf (path : String) : Location := ((Path.mk path).pieces).filter (· ≠ "")

/-- The text of a location. -/
def textOf (l : Location) : String := "/" ++ "/".intercalate l

/-- A tree with the directories on the way to a location. -/
def withDirectories (t : FileTree) (l : Location) : FileTree :=
  (t.makeDirectories ⟨textOf l⟩).1

/-- Takes in an entry of the file system and all that is below it. -/
partial def takeIn (t : FileTree) (l : Location) (entry : IO.FS.DirEntry) : IO FileTree := do
  let l := l ++ [entry.fileName]
  if ← entry.path.isDir then
    (← entry.path.readDir).foldlM (fun t inner => takeIn t l inner) (t.put l .directory)
  else
    return t.put l (.file (← IO.FS.readBinFile entry.path).toList)

/-- Takes in a directory. -/
def takeInDirectory (t : FileTree) (path : String) : IO FileTree := do
  let l := locationOf path
  let directory ← IO.FS.realPath path
  (← directory.readDir).foldlM (fun t entry => takeIn t l entry) (withDirectories t l)

/-- Carries out a change. -/
def carryOut : Change → IO Unit
  | .removeFile l => IO.FS.removeFile (textOf l)
  | .makeDirectory l => IO.FS.createDirAll (textOf l)
  | .writeFile l content => IO.FS.writeBinFile (textOf l) ⟨content.toArray⟩

/-- The root that the arguments name, if it can be found. -/
def namedRoot? (arguments : List String) : IO (Option String) := do
  match Request.ofArguments arguments with
  | .run { root := some root, .. } =>
    try return some (← IO.FS.realPath root.text).toString
    catch _ => return none
  | _ => return none

/-- Runs the program. -/
def main (arguments : List String) : IO UInt32 := do
  let directory := (← IO.currentDir).toString
  let before ← takeInDirectory FileTree.empty directory
  let before ← match ← namedRoot? arguments with
    | none => pure before
    | some root =>
      if (locationOf directory).isPrefixOf (locationOf root) then pure before
      else takeInDirectory before root
  let outcome := run Shell.programs before ⟨directory⟩ arguments
  for change in before.changes outcome.tree do carryOut change
  for line in outcome.progress do IO.eprintln line
  IO.print outcome.output
  match outcome.error with
  | none => pure ()
  | some e => IO.eprintln ("Error: " ++ e.message Cause.message)
  return UInt32.ofNat outcome.code

end Bundler.CommandLine

/-- The program's entry. -/
def main (arguments : List String) : IO UInt32 := Bundler.CommandLine.main arguments
