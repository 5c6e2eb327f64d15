import Bundler.Shell.Redirect
import Bundler.Shell.Tool.Entries
import Bundler.Shell.Tool.Listing
import Bundler.Shell.Tool.Numbers
import Bundler.Shell.Tool.Showing
import Bundler.Shell.Tool.Sorting
import Bundler.Shell.Tool.Texts
import Bundler.Shell.Tool.Transfer
/-!
# Running programs

A program takes the place of what its process did before: it is a tool, the shell itself, or `env`,
which starts another program. A shell starts programs as processes of their own, or as its last act
in its own place.
-/

namespace Bundler.Shell

/-- The tools by name. -/
def tools : List (String × Tool) :=
  [("true", Tool.answer 0), ("false", Tool.answer 1), ("sleep", Tool.sleep), ("cp", Tool.cp),
    ("mv", Tool.mv), ("ln", Tool.ln), ("rm", Tool.rm), ("rmdir", Tool.rmdir),
    ("mkdir", Tool.mkdir), ("touch", Tool.touch), ("chmod", Tool.chmod), ("ls", Tool.ls),
    ("cat", Tool.cat), ("tac", Tool.tac), ("tee", Tool.tee), ("head", Tool.head),
    ("tail", Tool.tail), ("cut", Tool.cut), ("wc", Tool.wc), ("sort", Tool.sort),
    ("uniq", Tool.uniq), ("tr", Tool.tr), ("cmp", Tool.cmp), ("echo", Tool.echo),
    ("printf", Tool.printf), ("test", Tool.test false), ("[", Tool.test true), ("pwd", Tool.pwd),
    ("basename", Tool.basename), ("dirname", Tool.dirname), ("realpath", Tool.realpath),
    ("seq", Tool.seq), ("expr", Tool.expr), ("yes", Tool.yes), ("printenv", Tool.printenv)]

/-- The names of all programs of the system. -/
def programNames : List String := ["sh", "dash", "env"] ++ tools.map (·.1)

/-- The session of a shell that starts. -/
def Session.start (name : Octets) (environment : List (String × Octets)) (directory : Path)
    (mask number parent : Nat) (deaf : List Nat) : Session where
  name := name
  arguments := []
  bindings :=
    let own : List (String × Variable) :=
      [("IFS", ⟨some " \t\n".toList, false, false⟩), ("OPTIND", ⟨some ['1'], false, false⟩),
        ("PPID", ⟨some (.ofNat parent), false, false⟩),
        ("PWD", ⟨some (Octets.ofText directory.text), true, false⟩)]
    let given := (environment.filter fun e => isName e.1.toList && (own.lookup e.1).isNone).map
      fun (name, value) => (name, (⟨some value, true, false⟩ : Variable))
    let prompts : List (String × Variable) :=
      [("PATH", ⟨some defaultPath, false, false⟩), ("PS1", ⟨some "# ".toList, false, false⟩),
        ("PS2", ⟨some "> ".toList, false, false⟩),
        ("PS4", ⟨some "+ ".toList, false, false⟩)]
    own ++ given ++ prompts.filter fun e => (given.lookup e.1).isNone
  functions := []
  aliases := []
  options := .none
  directory := directory
  mask := mask
  code := 0
  innerCode := 0
  number := number
  process := number
  traps := []
  deaf := deaf
  caught := []
  codeBefore := none
  line := 0
  command := none
  documents := #[]
  loops := 0
  locals := []
  optionPlace := 0
  jobs := []
  jobOrder := []
  background := none
  found := []

namespace Run
variable (run : Runner)

/-! ## Programs in their processes -/

/-- The content of a script that is read from a channel. -/
def scriptFrom (channel : Nat) : Action Octets := do
  let r ← Action.lift (Kernel.receiveAll channel)
  return (r.toOption.getD []).filter (· ≠ Char.ofNat 0)

/-- What a shell does that was started with arguments. -/
def shellWork (args : List Octets) : Action Unit := do
  Action.listen
  let r ← Builtin.setOptions true false ⟨[], false, false, false⟩ args
  let named (args : List Octets) : Action Unit :=
    match args with
    | [] => pure ()
    | name :: arguments => Action.update fun s => { s with name, arguments }
  let fromInput : Action Unit := do
    match ← Action.lift (Kernel.stream? 0) with
    | none => pure ()
    | some n => text run true ⟨false, false⟩ (← scriptFrom n)
  if r.command then
    match r.rest with
    | [] => Action.fail "-c requires an argument".toList
    | script :: more =>
      named more
      text run false ⟨false, false⟩ script
      if r.fromInput then fromInput
  else
    match if r.fromInput then [] else r.rest with
    | [] =>
      Action.update fun s => { s with arguments := r.rest }
      fromInput
    | file :: arguments =>
      match ← openChannel file .read with
      | .error e => failToOpen file e
      | .ok n =>
        named (file :: arguments)
        text run true ⟨false, false⟩ (← scriptFrom n)

/-- Runs a shell as the program of a process. -/
def shellProgram (directory : Path) (mask : Nat) (program : Program) : Kernel ExitStatus := do
  let p ← Kernel.self
  let session := Session.start program.name program.environment directory mask (← read) p.parent
    p.ignored
  shellProcess run session (shellWork run program.args)

/-- Why a program cannot be run, in its words. -/
def complainAbout (program : Program) (message : Octets) : Kernel Unit := do
  let _ ← Kernel.put 2 (program.name ++ ": ".toList ++ message ++ ['\n'])

/-- Runs a program in the place of what its process did before, unless its file is none. A file that
the system cannot run is a script of the shell if `asScript` says so. The first argument bounds how
often one program starts another in its place. -/
def execute : Nat → (asScript : Bool) → Path → Nat → Program → Kernel (Except IoError ExitStatus)
  | 0, _, _, _, _ => return .error .notAProgram
  | fuel + 1, asScript, directory, mask, program => do
    match (← get).load directory maxInterpreters program with
    | .error .notAProgram =>
      if asScript then
        execute fuel false directory mask
          { program with path := "/bin/sh".toList, args := program.path :: program.args }
      else return .error .notAProgram
    | .error e => return .error e
    | .ok (name, program) =>
      Kernel.update fun p => { p with held := [], handled := [] }
      Kernel.sleep Kernel.loadTime
      if name = "sh" || name = "dash" then
        return .ok (← shellProgram run directory mask program)
      else if name = "env" then
        match EnvironmentChange.read program.environment program.args with
        | .error message =>
          complainAbout program message
          let _ ← Kernel.put 2 ("Try '".toList ++ program.name ++
            " --help' for more information.\n".toList)
          return .ok (.code 125)
        | .ok change =>
          match change.program with
          | none =>
            let shown := change.environment.flatMap fun (name, value) =>
              name.toList ++ '=' :: value ++ change.ending
            let tool : Tool := fun call => do
              call.put shown
              return 0
            let call : Call :=
              ⟨program.name, program.args, program.environment, directory, mask⟩
            return .ok (.code (← Tool.run tool call))
          | some (name, args) =>
            let cannot (e : IoError) : Kernel (Except IoError ExitStatus) := do
              complainAbout program (quotedName name ++ ": ".toList ++ (reason e).toList)
              return .ok (.code (if e = .notFound || e = .notADirectory then 127 else 126))
            let directory := match change.directory with
              | some d => pathOf directory d
              | none => directory
            let searchPath := (change.environment.lookup "PATH").getD "/bin:/usr/bin".toList
            match (← get).programPath directory searchPath name with
            | .error e => cannot e
            | .ok path =>
              match ← execute fuel true directory mask ⟨path, name, args, change.environment⟩ with
              | .ok ending => return .ok ending
              | .error e => cannot e
      else
        match tools.lookup name with
        | none => return .error .notAProgram
        | some tool =>
          let call : Call := ⟨program.name, program.args, program.environment, directory, mask⟩
          return .ok (.code (← Tool.run tool call))

/-- Runs a program in the place of the shell. Where that fails, the shell ends with a message. -/
def become (program : Program) : Action Unit := do
  let s ← Action.session
  match ← Action.lift (execute run maxDepth true s.directory s.mask program) with
  | .ok ending => throw (.replaced ending)
  | .error e =>
    let missing := e = .notFound || e = .notADirectory || e = .nameTooLong
    Action.warn (program.name ++ ": ".toList ++ Builtin.searchReason e)
    Action.setCode (if missing then 127 else 126)
    throw .exited

/-! ## Starting programs -/

/-- Starts a program as a process of its own, and waits for its end. -/
def startProgram (program : Program) : Action Nat := do
  let s ← Action.session
  let job ← Jobs.new
  let n ← Action.lift do
    let n ← Kernel.spawn (copyOf s) (.program program) fun p => { p with held := [], handled := [] }
    Kernel.sleep Kernel.forkTime
    return n
  Jobs.add job n
  Jobs.finish job

/-- Runs a program by its name. The shell gives it its place where it has nothing more to do. -/
def external (place : Place) (searchPath : Option Octets) (name : Octets) (args : List Octets) :
    Action Unit := do
  match ← Builtin.findCommand searchPath name with
  | .error e =>
    Action.warn (name ++ ": ".toList ++ Builtin.searchReason e)
    Action.setCode 127
  | .ok path =>
    let s ← Action.session
    let program : Program := ⟨path, name, args, s.environment⟩
    if place.last && s.traps.all fun e => e.2.isEmpty then become run program
    else Action.setCode (← startProgram program)

/-- Ends the shell in favour of a program. -/
def replace (name : Octets) (args : List Octets) : Action Unit := do
  let s ← Action.session
  Action.update fun s => { s with command := some "exec".toList }
  let searchPath := (← Action.valueOf "PATH").getD []
  match (← Action.world).programPath s.directory searchPath name with
  | .ok path => become run ⟨path, name, args, s.environment⟩
  | .error e =>
    Action.warn (name ++ ": ".toList ++ Builtin.searchReason e)
    Action.setCode (if e = .permissionDenied then 126 else 127)
    throw .exited

end Run
end Bundler.Shell
