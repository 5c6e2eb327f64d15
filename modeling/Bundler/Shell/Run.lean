import Bundler.Shell.Program
import Bundler.Shell.Schedule
/-!
# Running commands

`Run.step` says what one command does, where the commands inside it are run by another runner;
`runWithin` ties the knot with a bound on how deep commands may be nested. Parts of a pipeline,
commands in the background and commands inside words run as processes of their own.
-/

namespace Bundler.Shell

namespace Run
variable (run : Runner)

/-! ## Functions and script files -/

/-- Runs a function. -/
def function (place : Place) (body : Command) (args : List Octets) : Action Unit := do
  let s ← Action.session
  Action.update fun t => { t with arguments := args, loops := 0, locals := [] :: t.locals }
  let r ← Action.outcome (run ⟨place.tested, false⟩ body)
  let locals := (← Action.session).locals
  locals.head?.getD [] |>.forM fun (name, old) => Action.putVariable name old
  Action.update fun t =>
    { t with arguments := s.arguments, loops := s.loops, locals := locals.drop 1 }
  match r with
  | .ok () => return ()
  | .error .returned => return ()
  | .error e => throw e

/-- The path of a script file: its own, or one in the directories of the search path. -/
def scriptPath? (file : Octets) : Action (Option Octets) := do
  if file.contains '/' then return some file
  else
    let s ← Action.session
    let w ← Action.world
    let places := Octets.pieces (· == ':') ((← Action.valueOf "PATH").getD [])
    let paths := places.map fun dir => if dir.isEmpty then file else dir ++ '/' :: file
    return paths.find? fun path => w.tree.isFile (pathOf s.directory path)

/-- Runs a script file in the shell itself. -/
def source : Builtin := fun args => do
  let (_, args) ← Builtin.options "" args
  match args with
  | [] => return 0
  | file :: _ =>
    match ← scriptPath? file with
    | none => Action.fail (file ++ ": not found".toList)
    | some path =>
      match ← openChannel path .read with
      | .error e => failToOpen path e
      | .ok n =>
        let script ← scriptFrom n
        Action.update fun s => { s with code := 0, command := some path }
        match ← Action.outcome (text run true ⟨false, false⟩ script) with
        | .ok () => return (← Action.session).code
        | .error .returned => return (← Action.session).code
        | .error e => throw e

/-! ## Commands by name -/

/-- Commands of the shell whose arguments may be assignments. -/
def takesAssignments (name : Octets) : Bool :=
  ["export", "readonly", "local", "alias"].contains (String.ofList name)

/-- Commands of the shell that run others. -/
def runningBuiltins : List (String × Bool) :=
  [("eval", true), (".", true), ("exec", true), ("command", false), ("type", false)]

/-- Whether a name is that of a command of the shell, and if so whether its failure ends the
shell. -/
def builtin? (name : Octets) : Option Bool :=
  let name := String.ofList name
  (runningBuiltins.lookup name).orElse fun _ => (Builtin.table.lookup name).map (·.1)

/-- What a command name stands for, as `command -v` and `type` show it. -/
def meaning (brief : Bool) (searchPath : Option Octets) (name : Octets) :
    Action (Option Octets) := do
  let session ← Action.session
  let s := String.ofList name
  let shown (text : String) : Octets := if brief then name else name ++ text.toList
  if keywords.contains s then return some (shown " is a shell keyword")
  else
    match session.aliases.lookup s with
    | some text =>
      return some (if brief then "alias ".toList ++ (Builtin.shownAlias s text).dropLast
        else name ++ " is an alias for ".toList ++ text)
    | none =>
      if (session.functions.lookup s).isSome then return some (shown " is a shell function")
      else
        match builtin? name with
        | some true => return some (shown " is a special shell builtin")
        | some false => return some (shown " is a shell builtin")
        | none =>
          let known := (session.found.lookup s).isSome && searchPath.isNone
          match ← Builtin.findCommand searchPath name with
          | .error _ => return none
          | .ok path =>
            let exists_ := (← Action.world).tree.contains (pathOf session.directory path)
            if ! exists_ then return none
            else if brief then return some path
            else if known then return some (name ++ " is a tracked alias for ".toList ++ path)
            else return some (name ++ " is ".toList ++ path)

/-- Shows what names stand for. -/
def meanings (brief : Bool) (searchPath : Option Octets) (names : List Octets) : Action Nat :=
  names.foldlM (fun code name => do
    match ← meaning brief searchPath name with
    | some text =>
      let _ ← Builtin.put (text ++ ['\n'])
      return code
    | none =>
      unless brief do
        let _ ← Builtin.put (name ++ ": not found\n".toList)
      return 127) 0

/-- Runs a command of the shell. Its failure is its exit code, unless it ends the shell. -/
def builtin (strict : Bool) (name : Octets) (action : Action Unit) : Action Unit := do
  let saved := (← Action.session).command
  Action.update fun s => { s with command := some name }
  let r ← Action.outcome action
  Action.update fun s => { s with command := saved }
  match r with
  | .error .failed => if strict then throw .failed
  | r => Action.resume r

/-- The options of `command`, which only look for a name where they ask for it. -/
structure CommandOptions where
  looks : Bool
  searchPath : Option Octets
  rest : List Octets

/-- Reads the options of `command`, as far as they do not ask for more than running a command. -/
def readCommandOptions : List Octets → CommandOptions → CommandOptions
  | arg :: rest, o =>
    match arg with
    | ['-', '-'] => { o with rest }
    | '-' :: c :: more =>
      if (c :: more).all (· == 'p') then
        readCommandOptions rest { o with searchPath := some defaultPath, rest }
      else { o with looks := true, rest := arg :: rest }
    | _ => { o with rest := arg :: rest }
  | [], o => { o with rest := [] }

/-- Shows what the first of some names stands for. -/
def lookUp : Builtin := fun args => do
  let (options, names) ← Builtin.options "pvV" args
  let searchPath := if options.any fun o => o.1 == 'p' then some defaultPath else none
  match names, (options.filter fun o => o.1 ≠ 'p').getLast? with
  | name :: _, some (letter, _) => meanings (letter == 'v') searchPath [name]
  | name :: _, none => meanings true searchPath [name]
  | [], _ => return 0

/-- Runs a command by its name. Behind `command` there are no functions (`plain`), and failures do
not end the shell. The first argument bounds how often `command` stands in front. -/
def named (place : Place) :
    Nat → (plain : Bool) → (searchPath : Option Octets) → Octets → List Octets → Action Unit
  | 0, _, _, _, _ => Action.setCode 127
  | n + 1, plain, searchPath, name, args => do
    let s ← Action.session
    let key := String.ofList name
    let strict := ! plain && (builtin? name).getD false
    let own (action : Builtin) : Action Unit :=
      builtin strict name do Action.setCode (← action args)
    match if plain || strict then none else s.functions.lookup key with
    | some body => function run place body args
    | none =>
      match Builtin.table.lookup key with
      | some (_, action) => own action
      | none =>
        match key with
        | "eval" =>
          builtin strict name do
            Action.setCode 0
            text run false ⟨place.tested, false⟩ (Octets.joined [' '] args)
        | "." => own (source run)
        | "exec" =>
          match args.dropWhile fun s => s = "--".toList with
          | [] => Action.setCode 0
          | program :: args => replace run program args
        | "type" => own (meanings false none)
        | "command" =>
          let o := readCommandOptions args ⟨false, searchPath, []⟩
          match o.looks, o.rest with
          | false, command :: args => named place n true o.searchPath command args
          | _, _ => own lookUp
        | _ => external run place searchPath name args

/-! ## Simple commands -/

/-- Expands words. Behind a command that takes assignments, words of their form are not cut. -/
def fields : List Octets → List Word → Action (List Octets)
  | before, [] => return before
  | before, w :: rest => do
    let start := before.dropWhile fun s => s = "command".toList
    match if start.head?.any takesAssignments then w.assignment? else none with
    | some (name, value) => do
      let text := name.toList ++ '=' :: (← expandValue output value)
      fields (before ++ [text]) rest
    | none => fields (before ++ (← expandFields output w)) rest

/-- Sets variables in front of a command. What they are set to is given back. -/
def assign (exported : Bool) (assignments : List (String × Word)) : Action (List Octets) :=
  assignments.mapM fun (name, w) => do
    let value ← expandValue output w
    Action.setVariable name value
    if exported then Action.markVariable name fun v => { v with exported := true }
    return name.toList ++ '=' :: value

/-- Does something with variables that are set for it alone. -/
def assignedFor (assignments : List (String × Word)) (action : List Octets → Action Unit) :
    Action Unit := do
  if assignments.isEmpty then action []
  else
    let old ← assignments.mapM fun (name, _) => do return (name, ← Action.variableOf name)
    let shown ← assign true assignments
    Action.behind (action shown) (old.forM fun (name, v) => Action.putVariable name v)

/-- The text in front of a command that is shown. -/
def tracePrompt : Action Octets := do
  let raw := (← Action.valueOf "PS4").getD []
  if raw.any fun c => c == '$' || c == Char.ofNat 0x60 || c == '\\' then
    let (r, _) := (readQuoted (readInner (raw.length + 8)) (16 * raw.length + 64) .input).run
      (.ofText raw)
    match r with
    | .ok w => expandText output w
    | .error _ => return raw
  else return raw

/-- Shows a command before it is run, on the channel that the standard error had before. -/
def trace (errors : Option Nat) (words : List Octets) : Action Unit := do
  if (← Action.session).options.trace then
    let start ← tracePrompt
    match errors with
    | some n =>
      let _ ← Action.lift (Kernel.emit n (start ++ Octets.joined [' '] words ++ ['\n']))
    | none => pure ()

/-- Runs a simple command. -/
def simple (place : Place) (line : Nat) (assignments : List (String × Word)) (words : List Word)
    (redirects : List Redirect) : Action Unit := do
  Action.update fun s => { s with line, innerCode := 0 }
  let all ← fields [] words
  let errors ← Action.lift (Kernel.stream? 2)
  match all with
  | [] =>
    redirected redirects false false do
      let shown ← assign false assignments
      trace errors shown
      Action.setCode (← Action.session).innerCode
  | name :: args =>
    let s ← Action.session
    let isFunction := (s.functions.lookup (String.ofList name)).isSome
    let strict := builtin? name = some true
    let keeps := name = "exec".toList
    redirected redirects strict (keeps && args.isEmpty) do
      if strict then
        let shown ← assign (keeps && ! args.isEmpty) assignments
        trace errors (shown ++ all)
        named run place maxDepth false none name args
      else
        assignedFor assignments fun shown => do
          trace errors (shown ++ all)
          named run { place with last := place.last && ! isFunction } maxDepth false none name args

/-! ## Commands that are built from others -/

/-- How a round of a loop ended. -/
inductive Round where
  | done
  | next
  | stop
  deriving DecidableEq, Repr

/-- Runs a part of a round. -/
def round (action : Action Unit) : Action Round := do
  match ← Action.outcome action with
  | .ok () => return .done
  | .error (.broken n) => if n ≤ 1 then return .stop else throw (.broken (n - 1))
  | .error (.continued n) => if n ≤ 1 then return .next else throw (.continued (n - 1))
  | .error e => throw e

/-- Runs a loop as something that is left by `break`. -/
def inLoop (action : Action Nat) : Action Unit := do
  let loops := (← Action.session).loops
  Action.update fun s => { s with loops := loops + 1 }
  let r ← Action.outcome action
  Action.update fun s => { s with loops }
  Action.setCode (← Action.resume r)

/-- The rounds of a loop with a condition; the result is the code of the last one. -/
def rounds (wanted : Bool) (condition body : Action Unit) : Nat → Nat → Action Nat
  | 0, code => return code
  | n + 1, code => do
    Action.lift (Kernel.sleep Kernel.roundTime)
    match ← round condition with
    | .stop => return code
    | .next => rounds wanted condition body n code
    | .done =>
      if decide ((← Action.session).code = 0) ≠ wanted then return code
      else
        let r ← round body
        let code := (← Action.session).code
        if r = .stop then return code else rounds wanted condition body n code

/-- The rounds of a loop over texts. -/
def eachText (name : String) (body : Action Unit) : Nat → List Octets → Action Nat
  | code, [] => return code
  | _, value :: rest => do
    Action.setVariable name value
    let r ← round body
    let code := (← Action.session).code
    if r = .stop then return code else eachText name body code rest

/-- The first arm with a pattern for a text. -/
def findArm (subject : Octets) : List Arm → Action (Option Command)
  | [] => return none
  | .arm patterns body :: rest => do
    let hit ← patterns.foldlM (fun hit w => do
      if hit then return true
      else return matchesAll (← expandPattern output w) subject) false
    if hit then return some body else findArm subject rest

/-! ## Processes side by side -/

/-- Starts the parts of a pipeline, each with the input from the one before. -/
def stages (place : Place) (background : Bool) (job : Nat) :
    Option Nat → List Command → Action Unit
  | _, [] => return ()
  | input, command :: rest => do
    let s ← Action.session
    let source ← match input with
      | some n => pure (some n)
      | none =>
        if background then do pure (some (← Action.lift (Kernel.newChannel (.device .null))))
        else pure none
    let ends ← if rest.isEmpty then pure none else do pure (some (← Action.lift Kernel.newPipe))
    let change (p : Process) : Process :=
      let streams := match source with
        | some n => Kernel.connected 0 n p.streams
        | none => p.streams
      let streams := match ends with
        | some (_, writing) => Kernel.connected 1 writing streams
        | none => streams
      { p with streams, held := (input.map p.held.erase).getD p.held }
    let next : Kernel Unit := do
      input.forM Kernel.release
      ends.forM fun e => Kernel.hold e.1
    let copy := if background then backgroundCopyOf s else copyOf s
    let n ← fork copy { place with last := true } command change next
    Jobs.add job n
    if background then Action.update fun s => { s with background := some n }
    stages place background job (ends.map (·.1)) rest

/-- Starts a command in the background. -/
def inBackground (command : Command) : Action Unit := do
  let job ← Jobs.new
  match command with
  | .pipeline commands => stages ⟨false, true⟩ true job none commands
  | _ =>
    let null ← Action.lift (Kernel.newChannel (.device .null))
    let n ← fork (backgroundCopyOf (← Action.session)) ⟨false, true⟩ command
      (fun p => { p with streams := Kernel.connected 0 null p.streams }) (pure ())
    Jobs.add job n
    Action.update fun s => { s with background := some n }

/-- Runs a command in a copy of the shell. The shell itself does it if it has nothing more to do. -/
def inCopy (place : Place) (body : Command) (redirects : List Redirect) : Action Unit := do
  let s ← Action.session
  let last : Place := { place with last := true }
  if place.last && s.traps.all fun e => e.2.isEmpty then
    redirected redirects true true (run last body)
    throw .exited
  else
    let job ← Jobs.new
    let inner := if redirects.isEmpty then body else .subshell s.line body redirects
    let n ← fork (copyOf s) last inner id (pure ())
    Jobs.add job n
    Action.setCode (← Jobs.finish job)

/-! ## All commands -/

/-- Ends the shell after a command that failed, if it is to be ended then. -/
def checked (place : Place) (action : Action Unit) : Action Unit := do
  let ends := (← Action.session).options.endOnFailure && ! place.tested
  action
  if ends && (← Action.session).code ≠ 0 then throw .exited

/-- What one command does. -/
def step (place : Place) (command : Command) : Action Unit := do
  if (← Action.session).options.onlyRead then return ()
  match command with
  | .nothing => return ()
  | .simple line assignments words redirects =>
    checked place (simple run place line assignments words redirects)
  | .pipeline commands =>
    checked place do
      let job ← Jobs.new
      stages place false job none commands
      Action.setCode (← Jobs.finish job)
  | .background command =>
    inBackground command
    Action.setCode 0
  | .sequence first second =>
    run { place with last := false } first
    run place second
  | .both first second =>
    run ⟨true, false⟩ first
    if (← Action.session).code = 0 then run place second
  | .either first second =>
    run ⟨true, false⟩ first
    if (← Action.session).code ≠ 0 then run place second
  | .negate command =>
    run ⟨true, false⟩ command
    Action.setCode (if (← Action.session).code = 0 then 1 else 0)
  | .subshell line body redirects =>
    checked place do
      Action.update fun s => { s with line }
      inCopy run place body redirects
  | .group line body redirects =>
    Action.update fun s => { s with line }
    redirected redirects false false (run { place with last := false } body)
  | .branch condition yes no =>
    run ⟨true, false⟩ condition
    if (← Action.session).code = 0 then run place yes
    else
      match no with
      | .nothing => Action.setCode 0
      | no => run place no
  | .loop wanted condition body =>
    inLoop (rounds wanted (run ⟨true, false⟩ condition) (run { place with last := false } body)
      maxRounds 0)
  | .each line name words body =>
    Action.update fun s => { s with line }
    let values ← fields [] words
    inLoop (eachText name (run { place with last := false } body) 0 values)
  | .select line subject arms =>
    Action.update fun s => { s with line }
    let subject ← expandText output subject
    match ← findArm subject arms with
    | some body =>
      Action.setCode 0
      run place body
    | none => Action.setCode 0
  | .define name body =>
    Action.update fun s =>
      { s with functions := (name, body) :: s.functions.filter fun e => e.1 ≠ name }
    Action.setCode 0

end Run

/-- Runs a command in which no more than a given number of others are nested. -/
def runWithin : Nat → Runner
  | 0, _, _ => Action.fail "too deep".toList
  | n + 1, place, command => do
    Run.step (runWithin n) place command
    Run.caught (runWithin n)

/-! ## Programs -/

/-- What a new process does. -/
def launch (start : Start) (w : World) : Task (ExitStatus × World) := do
  let run := runWithin maxDepth
  let action : Kernel ExitStatus :=
    match start.errand with
    | .command place command => Run.shellProcess run start.session (run place command)
    | .program program =>
      Run.shellProcess run start.session (Run.become run program)
  let (r, w) ← action start.process w
  match r with
  | .ok ending => return (ending, w)
  | .error signal => return (.signal signal, w)

/-- The variables that a program is started with. -/
def firstEnvironment : List (String × Octets) := [("PATH", defaultPath)]

/-- The number of the first process, and that of its parent. -/
def firstProcess : Nat × Nat := (1000, 999)

/-- The world in which a program starts, with files and nothing to read. -/
def World.start (t : FileTree) : World where
  tree := withSystem programNames t
  times := []
  channels := #[.device .null]
  pipes := #[]
  nameless := #[]
  processes :=
    [(firstProcess.1, ⟨firstProcess.2, [(0, 0), (1, 0), (2, 0)], [], [], [], [], false, none⟩)]
  next := firstProcess.1 + 1
  starts := []
  now := 0

/-- Starts a program: the shell, a tool, or a script for one of them. -/
def programs : Programs := fun call t =>
  let texts := call.program :: call.directory.text :: call.args
  if texts.any fun s => s.toList.contains (Char.ofNat 0) then .error .nulInArgument
  else if ¬ t.isDirectory call.directory then .error .notFound
  else do
    let w := World.start t
    let name := Octets.ofText call.program
    let path ← w.programPath call.directory defaultPath name
    let program : Program := ⟨path, name, call.args.map Octets.ofText, firstEnvironment⟩
    let _ ← w.load call.directory maxInterpreters program
    let (number, parent) := firstProcess
    let session := Session.start name firstEnvironment call.directory 0o022 number parent []
    let (w, status) := Schedule.runMain launch ⟨number, session, .program program⟩ w
    return (withoutSystem programNames t w.tree, status)

end Bundler.Shell
