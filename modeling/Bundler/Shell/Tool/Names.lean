import Bundler.Shell.Octets
/-!
# Names in paths

What tools make of the spelling of a path: its last name, what stands before it, and the paths of
the directories that it lies in.
-/

namespace Bundler.Shell

/-- A path without the slashes at its end. -/
def withoutSlashes (s : Octets) : Octets :=
  let short := (s.reverse.dropWhile (· == '/')).reverse
  if short.isEmpty then s.take 1 else short

/-- The last name of a path. -/
def lastName (s : Octets) : Octets :=
  ((withoutSlashes s).reverse.takeWhile (· ≠ '/')).reverse

/-- The last name of a path; the root is its own name. -/
def nameOf (s : Octets) : Octets :=
  if s.isEmpty then [] else if s.all (· == '/') then ['/'] else lastName s

/-- The path without its last name. -/
def directoryOf (s : Octets) : Octets :=
  if s.isEmpty then ['.']
  else if s.all (· == '/') then ['/']
  else
    let front := ((withoutSlashes s).reverse.dropWhile (· ≠ '/')).reverse
    if front.isEmpty then ['.'] else withoutSlashes front

/-- A name in a directory. -/
def inside (directory name : Octets) : Octets :=
  if directory.getLast? = some '/' then directory ++ name else directory ++ '/' :: name

/-- A path and the paths of the directories that it lies in, as it spells them. -/
def parentsOf (arg : Octets) : List Octets :=
  let pieces := Octets.pieces (· == '/') (withoutSlashes arg)
  let paths := (List.range pieces.length).map fun n =>
    withoutSlashes (Octets.joined ['/'] (pieces.take (pieces.length - n)))
  paths.filter (! ·.isEmpty)

/-- Whether a path ends in one of the names that every directory has. -/
def isDots (s : Octets) : Bool := lastName s = ['.'] || lastName s = "..".toList

end Bundler.Shell
