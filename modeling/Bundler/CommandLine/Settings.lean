import Bundler.CommandLine.Arguments
import Bundler.Project
/-!
# Project files

A project file holds settings as JSON. Options of the command line take their place.
-/

namespace Bundler.CommandLine

/-- The settings of a project file. -/
structure Settings where
  out : Option Path
  dist : Option Path
  sources : Option (List Path)
  entrypoints : List String
  concurrency : Option Nat
  chunking : Option Chunker
  /-- Commands by extension, ascending. -/
  transpilers : List (String × List String)
  deriving DecidableEq, Repr

namespace Settings

/-- Nothing is set. -/
def none : Settings := ⟨.none, .none, .none, [], .none, .none, []⟩

/-- The name of the project file. -/
def fileName : Path := ⟨"kobako.json"⟩

/-- A path in JSON. -/
def path : Json.Reader Path := (Json.text "a UTF-8 path string").map Path.mk

/-- Texts in JSON. -/
def texts : Json.Reader (List String) := Json.list (Json.text "a string")

/-- A way to make chunks in JSON: its name. -/
def chunker : Json.Reader (Option Chunker) :=
  (Json.choice "Chunking" ["per-entrypoint", "split-common"]).map chunker?

/-- Settings in JSON. Of a repeated extension the last command counts. -/
def shape : Json.Shape Settings where
  name := "ProjectFile"
  start := none
  fields :=
    [("out", (Json.optional path).into fun s out => { s with out }),
      ("dist", (Json.optional path).into fun s dist => { s with dist }),
      ("sources", (Json.optional (Json.list path)).into fun s sources => { s with sources }),
      ("entrypoints", texts.into fun s entrypoints => { s with entrypoints }),
      ("concurrency", (Json.optional (Json.word "usize")).into fun s concurrency =>
        { s with concurrency }),
      ("chunking", (Json.optional chunker).into fun s chunking =>
        { s with chunking := chunking.join }),
      ("transpilers", (Json.map texts).into fun s commands =>
        { s with transpilers := Sorted.ofList Ord.compare commands })]
  complete := false
  closed := true

/-- The settings that some bytes hold. -/
def decode (bytes : Bytes) : Except Json.Error Settings := shape.read.decode bytes

/-- The transpiler of a command; an empty command copies. -/
def transpiler : List String → Transpiler
  | [] => .copy
  | program :: args => .command program args

/-- The key of the transpiler for all other files. -/
def fallbackKey : String := "*"

/-- The transpilers of the settings, registered in the order of their keys. -/
def transpilerTable (s : Settings) : Transpilers :=
  s.transpilers.foldl (fun ts (ext, command) =>
    if ext = fallbackKey then ts.setFallback (transpiler command)
    else ts.register ext (transpiler command)) Transpilers.default

end Settings

/-- Why the program ended before it built anything, or why the build failed. -/
inductive Error where
  | noRoot (root : Path)
  | malformedSettings (path : Path)
  | unreadableSettings (path : Path)
  | noEntrypoints
  | build (error : BuildError)
  deriving DecidableEq, Repr

/-- The text of the error, its cause worded by `say`. -/
def Error.message (say : Cause → String) : Error → String
  | .noRoot root => "Couldn't open project root " ++ root.text
  | .malformedSettings path => "Malformed project file " ++ path.text
  | .unreadableSettings path => "Couldn't read project file " ++ path.text
  | .noEntrypoints =>
    "No entrypoints, pass --entry or list them in " ++ Settings.fileName.text
  | .build e => e.message say

/-- Reads a project file. One that was not asked for by name may be missing. -/
def Settings.load (t : FileTree) (path : Path) (required : Bool) : Except Error Settings :=
  match t.read path with
  | .ok bytes =>
    match Settings.decode bytes with
    | .error _ => .error (.malformedSettings path)
    | .ok s => .ok s
  | .error .notFound =>
    if required then .error (.unreadableSettings path) else .ok Settings.none
  | .error _ => .error (.unreadableSettings path)

/-- The project of a directory with the settings of its file and the options. -/
def configure (root : Path) (s : Settings) (o : Options) : Except Error Project :=
  let usual := Project.default root
  let entrypoints := if o.entrypoints.isEmpty then s.entrypoints else o.entrypoints
  if entrypoints.isEmpty then .error .noEntrypoints
  else .ok
    { usual with
      outDir := (o.out.or s.out).getD usual.outDir
      bundleDir := (o.dist.or s.dist).getD usual.bundleDir
      sources := if o.sources.isEmpty then s.sources.getD usual.sources else o.sources
      entrypoints
      concurrency := max ((o.jobs.or s.concurrency).getD usual.concurrency) 1
      transpilers := s.transpilerTable
      chunker := (o.chunks.or s.chunking).getD .perEntrypoint }

end Bundler.CommandLine
