import Bundler.Digest
import Bundler.Import.Retarget
import Bundler.Record
import Bundler.Resolve
import Bundler.TaskGraph.Run
import Bundler.Transpiler
/-!
# Compiling

The compiled counterpart of `<source root>/<path>` is `<out dir>/<source root>/<path>`, with a
record beside it. A file whose source has the digest of its record is left alone. In script files
the specifiers of imports are replaced by the modules that they name, and the record lists these
modules. A whole tree is compiled as a graph of independent tasks, one for each file; a file that
fails does not stop the others.
-/

namespace Bundler

/-- Why compiling failed. -/
inductive CompileError where
  | inaccessible (path : Path) (error : IoError)
  | transpile (error : TranspileError)
  | record (error : RecordError)
  | aborted (error : SolveError Empty)
  deriving DecidableEq, Repr

/-- The text of the error, its cause worded by `say`. -/
def CompileError.message (say : Cause → String) : CompileError → String
  | .inaccessible path e => "Couldn't access " ++ path.text ++ ":\n" ++ say (.io e)
  | .transpile e => e.message say
  | .record e => e.message say
  | .aborted e => "Compilation was aborted:\n" ++ e.message (fun x => nomatch x)

/-- What was done for a file. -/
inductive Compiled where
  /-- The record is up to date, nothing was touched. -/
  | cached
  /-- The file was compiled and imports these modules. -/
  | fresh (imports : List Path)
  deriving DecidableEq, Repr

/-- How many files were compiled and how many were up to date. -/
structure CompileReport where
  compiled : Nat
  cached : Nat
  deriving DecidableEq, Repr

/-- How the files below `root` are compiled. -/
structure Compiler where
  root : Path
  /-- Where compiled files go, relative to the root. -/
  outDir : Path
  transpilers : Transpilers
  concurrency : Nat
  programs : Programs

/-- How many files are compiled at the same time unless something else is asked for. -/
def defaultConcurrency : Nat := 10

namespace Compiler

/-- A file to compile: its source root and its path below it. -/
abbrev SourceFile := Path × Path

/-- The source of a file, relative to the root. -/
def source (file : SourceFile) : Path := file.1.join file.2

/-- The compiled counterpart of a file, relative to the root. -/
def destination (c : Compiler) (file : SourceFile) : Path :=
  (c.outDir.join file.1).join file.2

/-- The record of a file. -/
def recordPath (c : Compiler) (file : SourceFile) : Path :=
  c.root.join (Record.pathFor (c.destination file))

/-- Whether imports are looked for in a file. -/
def isScript (path : Path) : Bool := path.extension?.any fun ext => scriptExtensions.contains ext

/-- Whether a file was compiled from a source of the given digest. -/
def isCurrent (c : Compiler) (t : FileTree) (file : SourceFile) (hash : String) : Bool :=
  match Record.load t (c.recordPath file) with
  | .ok (some record) => record.hash = hash && t.contains (c.root.join (c.destination file))
  | _ => false

end Compiler

/-- Replaces the specifiers in a file by the modules that they name in the directory `base`; those
that name none stay. The file is written only if it changes. -/
def retargetFile (t : FileTree) (root file base : Path) : Except IoError (FileTree × List Path) :=
  match t.read file with
  | .error e => .error e
  | .ok content =>
    let retargeted := Import.retarget (fun specifier =>
      match resolve t root base specifier with
      | .ok path => some path.text
      | .error _ => none) content
    let imports := retargeted.imports.map Path.mk
    if retargeted.source = content then .ok (t, imports)
    else
      match t.write file retargeted.source with
      | .error e => .error e
      | .ok t => .ok (t, imports)

namespace Compiler

/-- Replaces the imports of a file that was just made, if it is a script. -/
def retargetImports (c : Compiler) (t : FileTree) (file : SourceFile) :
    Except IoError (FileTree × List Path) :=
  let src := source file
  if isScript src then
    retargetFile t c.root (c.root.join (c.destination file)) (src.parent?.getD ⟨""⟩)
  else .ok (t, [])

/-- Compiles a file whose source has the given digest, whether or not it is up to date. -/
def recompile (c : Compiler) (file : SourceFile) (hash : String) (t : FileTree) :
    FileTree × Except (Failure CompileError) Compiled :=
  let src := source file
  let dst := c.destination file
  match t.makeParent (c.root.join dst) with
  | (t, .error e) => (t, .error (.error (.inaccessible dst e)))
  | (t, .ok ()) =>
    match (c.transpilers.get src).run c.programs c.root (c.root.join src) (c.root.join dst) t with
    | (t, .error failure) => (t, .error (failure.map .transpile))
    | (t, .ok ()) =>
      match c.retargetImports t file with
      | .error e => (t, .error (.error (.inaccessible dst e)))
      | .ok (t, imports) =>
        match Record.save ⟨dst, hash, imports⟩ t (c.recordPath file) with
        | (t, .error e) => (t, .error (.error (.record e)))
        | (t, .ok ()) => (t, .ok (.fresh imports))

/-- Compiles a file unless it is up to date. -/
def compileFile (c : Compiler) (file : SourceFile) (t : FileTree) :
    FileTree × Except (Failure CompileError) Compiled :=
  match t.read (c.root.join (source file)) with
  | .error e => (t, .error (.error (.inaccessible (source file) e)))
  | .ok content =>
    let hash := (Digest.hash content).toHex
    if c.isCurrent t file hash then (t, .ok .cached) else c.recompile file hash t

/-- All files below the source roots, in the order of the roots and then of the paths. A root that
is no directory has none. -/
def discover (c : Compiler) (t : FileTree) (sources : List Path) : List SourceFile :=
  sources.flatMap fun root =>
    match t.locate (c.root.join root) with
    | .error _ => []
    | .ok l =>
      if t.node? l = some .directory then
        (t.filesBelow l).map fun names => (root, ⟨"/".intercalate names⟩)
      else []

/-- How far the compilation of a tree has come. -/
structure Progress where
  tree : FileTree
  /-- The errors of files, the first one first. -/
  errors : List CompileError
  report : CompileReport
  deriving DecidableEq, Repr

/-- What the task of a file does: nothing once the run is cancelled. An error of the file is noted
and is no error of the task. -/
def task (c : Compiler) (files : List SourceFile) : Work Progress Empty :=
  fun cancelled id progress =>
    if cancelled then (progress, .ok ())
    else
      match files[id]? with
      | none => (progress, .ok ())
      | some file =>
        match c.compileFile file progress.tree with
        | (tree, .ok .cached) =>
          let report := { progress.report with cached := progress.report.cached + 1 }
          ({ progress with tree, report }, .ok ())
        | (tree, .ok (.fresh _)) =>
          let report := { progress.report with compiled := progress.report.compiled + 1 }
          ({ progress with tree, report }, .ok ())
        | (tree, .error (.error e)) =>
          ({ progress with tree, errors := progress.errors ++ [e] }, .ok ())
        | (tree, .error (.panic p)) => ({ progress with tree }, .error (.panic p))

/-- The graph of the tasks of some files. -/
def graph (c : Compiler) (files : List SourceFile) : TaskGraph :=
  TaskGraph.independent c.concurrency files.length

/-- What a run over the files of a tree answers: why it was aborted, or else the first error of a
file, or else the report. -/
def conclude (run : Run Progress Empty) : Except CompileError CompileReport :=
  match run.result with
  | .error e => .error (.aborted e)
  | .ok () =>
    match run.world.errors with
    | e :: _ => .error e
    | [] => .ok run.world.report

/-- The run over the files of a tree before its first step. -/
def startRun (cancelled : Bool) (t : FileTree) : Run Progress Empty :=
  Run.start cancelled ⟨t, [], ⟨0, 0⟩⟩

/-- Compiles all files below the source roots; the caller may have cancelled beforehand. -/
def compileTree (c : Compiler) (sources : List Path) (cancelled : Bool) (t : FileTree) :
    FileTree × Except CompileError CompileReport :=
  let files := c.discover t sources
  let run :=
    Run.solve (c.graph files) (c.task files) (fun _ => false) cancelled ⟨t, [], ⟨0, 0⟩⟩
  (run.world.tree, conclude run)

end Compiler
end Bundler
