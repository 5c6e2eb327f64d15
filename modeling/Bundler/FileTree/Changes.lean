import Bundler.FileTree
/-!
# Differences between trees

What has to be done to one tree to get another one, in an order in which it can be done.
-/

namespace Bundler

/-- One thing to do. -/
inductive Change where
  | removeFile (l : Location)
  | makeDirectory (l : Location)
  | writeFile (l : Location) (content : Bytes)
  deriving DecidableEq, Repr

namespace FileTree

/-- Files that are gone are removed first; then new directories are made and new content is written,
each directory before what is in it. -/
def changes (before after : FileTree) : List Change :=
  let removed := (before.below []).filterMap fun (l, node) =>
    match node, after.node? l with
    | .file _, none => some (.removeFile l)
    | _, _ => none
  let made := (after.below []).filterMap fun (l, node) =>
    if before.node? l = some node then none
    else
      match node with
      | .directory => some (.makeDirectory l)
      | .file content => some (.writeFile l content)
  removed ++ made

end FileTree
end Bundler
