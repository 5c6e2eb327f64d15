import Bundler.Shell.Arithmetic
import Bundler.Shell.Reader
import Bundler.Shell.Task
/-!
# Actions of a shell

A shell works on a `Machine`, which is its session in the world, and an action of it may be left
early: by `break`, `return`, `exit`, by a failure, or by a signal (`Leave`).
-/

namespace Bundler.Shell

/-- A shell in its world. -/
structure Machine where
  session : Session
  world : World

/-- Why an action of a shell was left before its end. -/
inductive Leave where
  /-- Some loops are left. -/
  | broken (levels : Nat)
  /-- Some loops but one are left, and that one goes on. -/
  | continued (levels : Nat)
  | returned
  | exited
  /-- A failure that ends the shell. -/
  | failed
  /-- Another program took the place of the shell and ended. -/
  | replaced (ending : ExitStatus)
  | killed (signal : Nat)
  deriving DecidableEq, Repr

/-- An action of a shell. What it did up to an early end stays done. -/
abbrev Action := ExceptT Leave (StateT Machine Task)

namespace Action

/-- Does as the process that the shell is. -/
def lift {α : Type} (action : Kernel α) : Action α := fun m => do
  let (r, world) ← action m.session.process m.world
  return (r.mapError .killed, { m with world })

/-- Changes the session. -/
def update (f : Session → Session) : Action Unit :=
  modify fun m => { m with session := f m.session }

/-- The session. -/
def session : Action Session := do return (← get).session

/-- The world. -/
def world : Action World := do return (← get).world

/-- Sets the exit code of the last command. -/
def setCode (n : Nat) : Action Unit := update fun s => { s with code := n }

/-- How an action ended. -/
def outcome {α : Type} (action : Action α) : Action (Except Leave α) :=
  ExceptT.lift action.run

/-- Ends like another action did. -/
def resume {α : Type} : Except Leave α → Action α
  | .ok a => pure a
  | .error e => throw e

/-- Does something behind an action, however that ends. -/
def behind {α : Type} (action : Action α) (last : Action Unit) : Action α := do
  let r ← outcome action
  last
  resume r

/-! ## Streams and messages -/

/-- Writes to a stream, and says whether that went well. -/
def write (stream : Nat) (text : Octets) : Action Bool := do
  match ← lift (Kernel.put stream text) with
  | .ok () => return true
  | .error _ => return false

/-- What begins a message of the shell. -/
def messageStart (s : Session) : Octets :=
  let command := match s.command with
    | none => []
    | some name => name ++ ": ".toList
  s.name ++ ": ".toList ++ .ofNat s.line ++ ": ".toList ++ command

/-- Writes a message. -/
def warn (message : Octets) : Action Unit := do
  let _ ← write 2 (messageStart (← session) ++ message ++ ['\n'])

/-- Fails with a message. -/
def fail {α : Type} (message : Octets) : Action α := do
  warn message
  setCode 2
  throw .failed

/-- Fails because a text is no number. -/
def failNumber {α : Type} (s : Octets) : Action α := fail ("Illegal number: ".toList ++ s)

/-- The number that a text spells. -/
def integer (s : Octets) : Action Int :=
  match readNumber? 10 s with
  | some n => return n
  | none => failNumber s

/-- The natural number that a text spells. -/
def natural (s : Octets) : Action Nat := do
  let n ← integer s
  if 0 ≤ n ∧ n ≤ 2147483647 then return n.toNat else failNumber s

/-! ## Signals -/

/-- Signals for which a shell does something. -/
def handledBy (s : Session) : List Nat :=
  (s.traps.filter fun e => ! e.2.isEmpty && e.1 ≠ 0 && ! s.deaf.contains e.1).map (·.1)

/-- Signals that a shell ignores. -/
def ignoredBy (s : Session) : List Nat :=
  s.deaf ++ (s.traps.filter fun e => e.2.isEmpty && e.1 ≠ 0).map (·.1)

/-- Tells the system which signals the shell looks at and which it ignores. -/
def listen : Action Unit := do
  let s ← session
  lift (Kernel.update fun p => { p with ignored := ignoredBy s, handled := handledBy s })

/-- Takes the signals that came. -/
def takeSignals : Action Unit := do
  let p ← lift Kernel.self
  unless p.pending.isEmpty do
    lift (Kernel.update fun p => { p with pending := [] })
    update fun s => { s with caught := s.caught ++ p.pending }

/-! ## Variables -/

/-- The variable of a name. -/
def variableOf (name : String) : Action (Option Variable) := do
  return (← session).bindings.lookup name

/-- The value of a variable. -/
def valueOf (name : String) : Action (Option Octets) := do
  return (← variableOf name).bind Variable.value

/-- Puts a variable in the place of one. -/
def putVariable (name : String) (v : Option Variable) : Action Unit :=
  update fun s =>
    let others := s.bindings.filter fun e => e.1 ≠ name
    { s with
      bindings := match v with
        | none => others
        | some v => (name, v) :: others
      found := if name = "PATH" then [] else s.found
      optionPlace := if name = "OPTIND" then 0 else s.optionPlace }

/-- Sets a variable. -/
def setVariable (name : String) (value : Octets) : Action Unit := do
  unless isName name.toList do fail (Octets.ofText name ++ ": bad variable name".toList)
  let old := (← variableOf name).getD ⟨none, false, false⟩
  if old.readonly then fail (name.toList ++ ": is read only".toList)
  let exported := old.exported || (← session).options.exportAll
  putVariable name (some ⟨some value, exported, false⟩)

/-- Takes a variable away. -/
def unsetVariable (name : String) : Action Unit := do
  if (← variableOf name).any Variable.readonly then fail (name.toList ++ ": is read only".toList)
  putVariable name none

/-- Marks a variable. -/
def markVariable (name : String) (f : Variable → Variable) : Action Unit := do
  unless isName name.toList do fail (Octets.ofText name ++ ": bad variable name".toList)
  putVariable name (some (f ((← variableOf name).getD ⟨none, false, false⟩)))

/-- Makes a variable get its value back at the end of the innermost function. -/
def keepLocal (name : String) : Action Unit := do
  let old ← variableOf name
  update fun s =>
    { s with locals := match s.locals with
      | [] => []
      | l :: more => (if l.any fun e => e.1 = name then l else (name, old) :: l) :: more }

/-- The characters between fields. -/
def separators : Action Octets := do return (← valueOf "IFS").getD " \t\n".toList

/-- The variables of arithmetic expressions. -/
def arithmeticVariables (text : Octets) : Variables Action where
  get name := do
    let value ← valueOf name
    match readNumber? 0 (value.getD []) with
    | some n => return n
    | none => failNumber (value.getD [])
  set name n := setVariable name (.ofInt n)
  fail message :=
    fail ("arithmetic expression: ".toList ++ message.toList ++ ": \"".toList ++ text ++ ['"'])

/-- The value of an arithmetic expression. -/
def compute (text : Octets) : Action Int :=
  (Expression.read text).value (arithmeticVariables text)

/-! ## Parameters -/

/-- The value of a parameter that is a single text. -/
def parameter (name : String) : Action (Option Octets) := do
  let s ← session
  match name with
  | "#" => return some (.ofNat s.arguments.length)
  | "?" => return some (.ofNat s.code)
  | "$" => return some (.ofNat s.number)
  | "!" => return s.background.map fun n => .ofNat n
  | "-" => return some (s.options.shown)
  | _ =>
    match Octets.nat? name.toList with
    | some 0 => return some s.name
    | some (n + 1) => return s.arguments[n]?
    | none => valueOf name

end Action
end Bundler.Shell
