import Bundler.Bundle.Write
import Bundler.Compile
/-!
# Projects

A project is a directory of sources with the settings of its build. A build compiles the sources
into the output directory and links the compiled files into the bundle directory.
-/

namespace Bundler

/-- Why a build failed. -/
inductive BuildError where
  | compile (error : CompileError)
  | link (error : LinkError)
  deriving DecidableEq, Repr

/-- The text of the error, its cause worded by `say`. -/
def BuildError.message (say : Cause → String) : BuildError → String
  | .compile e => "Error while compiling sources:\n" ++ e.message say
  | .link e => "Error while linking bundles:\n" ++ e.message say

/-- A project and its settings. -/
structure Project where
  root : Path
  outDir : Path
  bundleDir : Path
  sources : List Path
  entrypoints : List String
  transpilers : Transpilers
  concurrency : Nat
  chunker : Chunker

/-- What a link made: the manifest, and how many modules went into how many chunks. -/
structure LinkReport where
  manifest : Manifest
  modules : Nat
  chunks : Nat
  deriving DecidableEq, Repr

namespace Project

/-- The project in a directory, with the usual settings. -/
def default (root : Path) : Project :=
  { root
    outDir := ⟨"build"⟩
    bundleDir := ⟨"dist"⟩
    sources := [⟨"src"⟩, ⟨"node_modules"⟩]
    entrypoints := []
    transpilers := Transpilers.default
    concurrency := defaultConcurrency
    chunker := .perEntrypoint }

/-- Where compiled files are. -/
def buildRoot (p : Project) : Path := p.root.join p.outDir

/-- Where bundles are. -/
def dist (p : Project) : Path := p.root.join p.bundleDir

/-- How the project's files are compiled. At least one is compiled at a time. -/
def compiler (p : Project) (programs : Programs) : Compiler :=
  ⟨p.root, p.outDir, p.transpilers, max p.concurrency 1, programs⟩

/-- Compiles all sources. -/
def compile (p : Project) (programs : Programs) (cancelled : Bool) (t : FileTree) :
    FileTree × Except CompileError CompileReport :=
  (p.compiler programs).compileTree p.sources cancelled t

/-- The manifest of the last link, if it can be read. -/
def lastManifest (p : Project) (t : FileTree) : Option Manifest :=
  match Manifest.load t (p.dist.join Manifest.fileName) with
  | .ok m => m
  | .error _ => none

/-- Links the compiled files and removes the chunks that the last link made and this one did not. -/
def link (p : Project) (t : FileTree) : FileTree × Except LinkError LinkReport :=
  let last := p.lastManifest t
  match Bundle.find t p.buildRoot p.entrypoints with
  | .error e => (t, .error e)
  | .ok bundle =>
    let chunks := p.chunker.chunks bundle.entrypoints bundle.files
    match Bundle.write p.buildRoot p.dist chunks t with
    | (t, .error e) => (t, .error e)
    | (t, .ok manifest) =>
      let t := match last with
        | none => t
        | some last => (last.prune p.dist manifest t).1
      (t, .ok ⟨manifest, bundle.files.length, chunks.length⟩)

/-- Compiles and links. A failed link still tells what was compiled. -/
def build (p : Project) (programs : Programs) (cancelled : Bool) (t : FileTree) :
    FileTree × Option CompileReport × Except BuildError LinkReport :=
  match p.compile programs cancelled t with
  | (t, .error e) => (t, none, .error (.compile e))
  | (t, .ok report) =>
    match p.link t with
    | (t, .error e) => (t, some report, .error (.link e))
    | (t, .ok linked) => (t, some report, .ok linked)

/-- The project in diagnostics. -/
def shown (p : Project) : String :=
  let path (q : Path) := Text.quoted q.text
  "Project \x7b root: " ++ path p.root ++ ", out_dir: " ++ path p.outDir ++
    ", bundle_dir: " ++ path p.bundleDir ++
    ", sources: " ++ Text.shownList (p.sources.map path) ++
    ", entrypoints: " ++ Text.shownList (p.entrypoints.map Text.quoted) ++
    ", transpilers: " ++ p.transpilers.shown ++
    ", concurrency: " ++ toString p.concurrency ++ ", .. \x7d"

end Project
end Bundler
