import Bundler.Shell.Builtin
import Bundler.Shell.Reader
/-!
# Running scripts

A script is run command by command, what is to be done on signals between them. A shell can be
copied: the copy is a process of its own that runs one command. How a command is run is a parameter.
-/

namespace Bundler.Shell

/-- A way to run commands. -/
abbrev Runner := Place → Command → Action Unit

/-- A bound for the rounds of one loop. -/
def maxRounds : Nat := 1000000

/-- A bound for how deep commands are nested. -/
def maxDepth : Nat := 2000

namespace Run
variable (run : Runner)

/-! ## Scripts -/

/-- Runs a script line by line. Lines of a file are shown if the shell was told so (`shown`). The
first argument behind the place bounds the number of lines. -/
def lines (shown : Bool) (place : Place) : Nat → Input → Action Unit
  | 0, _ => return ()
  | n + 1, input => do
    let s ← Action.session
    let (r, next) := readLine.run { input with documents := s.documents, aliases := s.aliases }
    if shown && s.options.echoInput then
      let _ ← Action.write 2 (input.rest.take (input.rest.length - next.rest.length))
    match r with
    | .error message =>
      Action.update fun s => { s with line := next.line }
      Action.fail ("Syntax error: " ++ message).toList
    | .ok none => return ()
    | .ok (some command) =>
      Action.update fun s => { s with documents := next.documents }
      run ⟨place.tested, place.last && next.isDone⟩ command
      lines shown place n next

/-- Runs a script text. -/
def text (shown : Bool) (place : Place) (script : Octets) : Action Unit :=
  lines run shown place (script.length + 1) (.ofText script)

/-! ## Signals -/

/-- Does what is to be done on the signals that came. -/
def caught : Action Unit := do
  Action.takeSignals
  let signals := (← Action.session).caught
  unless signals.isEmpty do
    Action.update fun s => { s with caught := [] }
    signals.forM fun n => do
      let s ← Action.session
      match s.traps.lookup n with
      | none => pure ()
      | some action =>
        Action.update fun t => { t with codeBefore := some s.code }
        Action.behind (text run false ⟨false, false⟩ action)
          (Action.update fun t => { t with codeBefore := s.codeBefore })
        Action.setCode s.code

/-- Ends a shell: what is to be done at its end is done. -/
def finish (r : Except Leave Unit) : Action ExitStatus := do
  match r with
  | .error (.killed n) => return .signal n
  | .error (.replaced ending) => return ending
  | _ =>
    let s ← Action.session
    match s.traps.lookup 0 with
    | none => return exitStatus s.code
    | some action =>
      Action.update fun t =>
        { t with traps := t.traps.filter (fun e => e.1 ≠ 0), codeBefore := some s.code, loops := 0 }
      match ← Action.outcome (text run false ⟨false, false⟩ action) with
      | .error (.killed n) => return .signal n
      | .error (.replaced ending) => return ending
      | .error .exited => return exitStatus (← Action.session).code
      | .error .failed => return exitStatus (← Action.session).code
      | _ => return exitStatus s.code

/-- Runs an action as all that the shell of a process does. -/
def shellProcess (session : Session) (action : Action Unit) : Kernel ExitStatus := fun n w => do
  let main : Action ExitStatus := do finish run (← Action.outcome action)
  let (r, m) ← main.run ⟨{ session with process := n }, w⟩
  match r with
  | .ok ending => return (.ok ending, m.world)
  | .error (.killed signal) => return (.error signal, m.world)
  | .error (.replaced ending) => return (.ok ending, m.world)
  | .error _ => return (.ok (exitStatus m.session.code), m.world)

/-! ## Copies of a shell -/

/-- The session of a copy of a shell: signals do again what they do without a shell, and jobs are
those of the copy. -/
def copyOf (s : Session) : Session :=
  { s with
    traps := s.traps.filter fun e => e.2.isEmpty
    caught := []
    codeBefore := none
    jobs := []
    jobOrder := [] }

/-- The session of a copy in the background, which cannot be interrupted. -/
def backgroundCopyOf (s : Session) : Session :=
  let s := copyOf s
  { s with deaf := [2, 3] ++ s.deaf }

/-- Starts a copy of the shell that runs a command. The process of the copy is changed by a function,
and this one does something before the copy can begin. -/
def fork (session : Session) (place : Place) (command : Command) (change : Process → Process)
    (next : Kernel Unit) : Action Nat :=
  Action.lift do
    let n ← Kernel.spawn session (.command place command) fun p =>
      change { p with handled := [], ignored := Action.ignoredBy session }
    next
    Kernel.sleep Kernel.forkTime
    return n

/-- What a command writes when it runs in a copy of the shell. -/
def output (command : Command) : Action Octets := do
  let (reading, writing) ← Action.lift Kernel.newPipe
  let job ← Jobs.new
  let n ← fork (copyOf (← Action.session)) ⟨false, true⟩ command
    (fun p => { p with streams := Kernel.connected 1 writing p.streams }) (Kernel.hold reading)
  Jobs.add job n
  let r ← Action.lift (Kernel.receiveAll reading)
  Action.lift (Kernel.release reading)
  let code ← Jobs.finish job
  Action.update fun s => { s with innerCode := code }
  return (r.toOption.getD []).filter (· ≠ Char.ofNat 0)

end Run
end Bundler.Shell
