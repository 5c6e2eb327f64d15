import Bundler.Cause
import Bundler.Json.Shape
import Bundler.Text.Search
/-!
# Resolving specifiers

A specifier names a module the way Node does. One that begins with `./`, `../` or `/` is a path
from the importing directory; any other is looked up in `node_modules`. The path may leave out a
script extension, and a directory stands for the main file that its `package.json` gives. All
paths that go in and come out are relative to one root.
-/

namespace Bundler

/-- The extensions of script files, in the order in which they are tried. -/
def scriptExtensions : List String := ["js", "jsx", "tsx", "ts"]

/-- Why a specifier has no module. -/
inductive ResolveError where
  | notFound (specifier : String) (base : Path)
  | unreadable (path : Path) (error : IoError)
  /-- A `package.json` that cannot be understood. -/
  | malformedPackage (path : Path) (error : Json.Error)
  deriving DecidableEq, Repr

/-- The text of the error, its cause worded by `say`. -/
def ResolveError.message (say : Cause → String) : ResolveError → String
  | .notFound specifier base =>
    "Couldn't resolve \"" ++ specifier ++ "\" from \"" ++ base.text ++ "\""
  | .unreadable path e => "Couldn't read " ++ path.text ++ ":\n" ++ say (.io e)
  | .malformedPackage path e =>
    "Malformed package manifest " ++ path.text ++ ":\n" ++ say (.json e)

namespace Resolve

/-- Where packages are looked up. -/
def packageDirectory : Path := ⟨"node_modules"⟩

/-- Describes a package. -/
def packageFile : Path := ⟨"package.json"⟩

/-- The main file of a directory that names none. -/
def defaultMain : Path := ⟨"index.js"⟩

/-- Whether the specifier is a path rather than the name of a package. -/
def isPath (specifier : String) : Bool :=
  Text.startsWith "./" specifier || Text.startsWith "../" specifier || Text.startsWith "/" specifier

/-- The path that a specifier means before anything is looked up. -/
def candidate (base : Path) (specifier : String) : Path :=
  if isPath specifier then (base.join ⟨Text.trimLeading '/' specifier⟩).normalize
  else (packageDirectory.join ⟨specifier⟩).normalize

/-- The spellings under which a candidate is looked up: as it is, then with each extension. -/
def spellings (candidate : Path) : List Path :=
  candidate :: scriptExtensions.map fun ext => ⟨candidate.text ++ "." ++ ext⟩

/-- The first spelling that exists below the root, and what it denotes. -/
def probe (t : FileTree) (root : Path) (candidate : Path) : Option (Path × Node) :=
  (spellings candidate).findSome? fun p => (t.at? (root.join p)).map fun node => (p, node)

/-- A package description. It names a main file, or none; an empty name counts as none. -/
def package : Json.Shape (Option String) where
  name := "PackageJson"
  start := none
  fields := [("main", fun _ => Json.optional (Json.text "a string"))]
  complete := false
  closed := false

/-- The main file that a package description names. -/
def mainOfPackage (content : Bytes) : Except Json.Error (Option String) :=
  (package.read.decode content).map fun main => main.filter (· ≠ "")

/-- The main file of a directory. -/
def mainOf (t : FileTree) (root dir : Path) : Except ResolveError Path :=
  let description := dir.join packageFile
  match t.read (root.join description) with
  | .ok content =>
    match mainOfPackage content with
    | .error e => .error (.malformedPackage description e)
    | .ok main => .ok (dir.join ((main.map Path.mk).getD defaultMain)).normalize
  | .error .notFound => .ok (dir.join defaultMain).normalize
  | .error e => .error (.unreadable description e)

end Resolve

/-- The module that a specifier names when it is used in the directory `base`. Whether a main file
exists is not checked. -/
def resolve (t : FileTree) (root base : Path) (specifier : String) : Except ResolveError Path :=
  match Resolve.probe t root (Resolve.candidate base specifier) with
  | none => .error (.notFound specifier base)
  | some (dir, .directory) => Resolve.mainOf t root dir
  | some (path, .file _) => .ok path

end Bundler
