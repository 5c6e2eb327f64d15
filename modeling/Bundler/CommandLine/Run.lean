import Bundler.CommandLine.Settings
/-!
# Running the program

What a call of the program does to the files, and what it prints. A watching program builds once and
then waits for changes; only the first build is told here.
-/

namespace Bundler.CommandLine

/-- The end of a call. -/
structure Outcome where
  tree : FileTree
  code : Nat
  output : String
  /-- The lines that tell how the build goes. -/
  progress : List String
  error : Option Error

/-- The line that begins a build. -/
def modeLine : Mode → String
  | .build => "Running kobako in build mode."
  | .watch => "Running kobako in watch mode."

/-- The line that follows the compilation. -/
def compileLine (r : CompileReport) : String :=
  "Compiled " ++ toString r.compiled ++ " files, " ++ toString r.cached ++ " up to date"

/-- The line that follows the linking. -/
def linkLine (r : LinkReport) : String :=
  "Linked " ++ toString r.modules ++ " modules into " ++ toString r.chunks ++ " chunks"

/-- The root of the project, as it is seen from the working directory. -/
def openRoot (t : FileTree) (directory : Path) (o : Options) : Except Error Path :=
  let root := o.root.getD ⟨"."⟩
  if root.text = "" then .error (.noRoot root)
  else
    match t.canonical (directory.join root) with
    | .ok path => .ok path
    | .error _ => .error (.noRoot root)

/-- The project that the options describe. -/
def openProject (t : FileTree) (directory : Path) (o : Options) : Except Error Project := do
  let root ← openRoot t directory o
  let settings ← match o.config with
    | some path => Settings.load t (root.join path) true
    | none => Settings.load t (root.join Settings.fileName) false
  configure root settings o

/-- Builds the project that the options describe. -/
def runBuild (programs : Programs) (t : FileTree) (directory : Path) (o : Options) : Outcome :=
  let mode := o.mode.getD .build
  match openProject t directory o with
  | .error e => ⟨t, 1, "", [], some e⟩
  | .ok project =>
    match project.build programs false t with
    | (t, compiled, .error e) =>
      let progress := modeLine mode :: (compiled.map compileLine).toList
      match mode with
      | .build => ⟨t, 1, "", progress, some (.build e)⟩
      | .watch => ⟨t, 0, "", progress, none⟩
    | (t, compiled, .ok linked) =>
      ⟨t, 0, "", modeLine mode :: (compiled.map compileLine).toList ++ [linkLine linked], none⟩

/-- Runs the program with its arguments in a directory. -/
def run (programs : Programs) (t : FileTree) (directory : Path) (arguments : List String) :
    Outcome :=
  match Request.ofArguments arguments with
  | .help => ⟨t, 0, helpText, [], none⟩
  | .version => ⟨t, 0, versionText, [], none⟩
  | .wrongUsage => ⟨t, 2, "", [], none⟩
  | .run o => runBuild programs t directory o

end Bundler.CommandLine
