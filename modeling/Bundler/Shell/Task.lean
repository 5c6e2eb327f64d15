import Bundler.Shell.World
/-!
# What processes do

A `Task` is a computation that can pause: it gives the world away, and goes on in the world that it
gets back, which others may have changed. A process is a task that keeps to `Kernel`: it acts on the
world under its own number, and a signal can end it.
-/

namespace Bundler.Shell

/-! ## Tasks -/

/-- A computation that ends, or pauses for some millionths of a second and until the world is as it
has to be. -/
inductive Task (α : Type) where
  | done (a : α)
  | pause (delay : Nat) (ready : World → Bool) (w : World) (resume : World → Task α)

namespace Task

/-- Goes on behind a task. -/
def bind {α β : Type} : Task α → (α → Task β) → Task β
  | .done a, f => f a
  | .pause delay ready w resume, f => .pause delay ready w fun w => (resume w).bind f

instance : Monad Task where
  pure := .done
  bind := Task.bind

end Task

/-- An action of a process, which knows its number. A signal may end it early. -/
abbrev Kernel := ReaderT Nat (ExceptT Nat (StateT World Task))

namespace Kernel

/-! ## Time -/

/-- How long it takes to start a process, in millionths of a second. -/
def forkTime : Nat := 150

/-- How long it takes a process to begin. -/
def startTime : Nat := 400

/-- How long it takes a process to load a program. -/
def loadTime : Nat := 700

/-- How long a round of a loop takes. -/
def roundTime : Nat := 5

/-- Pauses for a time and until the world is as it has to be. -/
def pauseUntil (delay : Nat) (ready : World → Bool) : Kernel Unit :=
  fun _ => ExceptT.lift fun w => .pause delay ready w fun w => .done ((), w)

/-- Pauses for a time. -/
def sleep (delay : Nat) : Kernel Unit := pauseUntil delay fun _ => true

/-! ## The process itself -/

/-- The process, as the table has it. -/
def self : Kernel Process := do
  return ((← get).process? (← read)).getD ⟨0, [], [], [], [], [], false, none⟩

/-- Changes the process in the table. -/
def update (f : Process → Process) : Kernel Unit := do
  let n ← read
  modify fun w => w.updateProcess n f

/-- The channel of a stream, if it is open. -/
def stream? (stream : Nat) : Kernel (Option Nat) := do return (← self).streams.lookup stream

/-- A stream table in which a stream goes to a channel. -/
def connected (stream channel : Nat) (streams : List (Nat × Nat)) : List (Nat × Nat) :=
  (stream, channel) :: streams.filter fun e => e.1 ≠ stream

/-- Connects a stream to a channel. -/
def connect (stream channel : Nat) : Kernel Unit :=
  update fun p => { p with streams := connected stream channel p.streams }

/-- Keeps a channel open. -/
def hold (channel : Nat) : Kernel Unit := update fun p => { p with held := channel :: p.held }

/-- Keeps a channel open no more. -/
def release (channel : Nat) : Kernel Unit := update fun p => { p with held := p.held.erase channel }

/-- Adds a channel. -/
def newChannel (c : Channel) : Kernel Nat := do
  let (w, n) := (← get).connect c
  set w
  return n

/-- Makes a pipe. -/
def newPipe : Kernel (Nat × Nat) := do
  let (w, reading, writing) := (← get).makePipe
  set w
  return (reading, writing)

/-! ## Reading and writing -/

/-- Reads from a channel, at most a number of characters, as soon as there are some; none are the
end. The first argument bounds how often it has to wait. -/
def readWithin : Nat → Nat → Nat → Kernel (Except Fault Octets)
  | 0, _, _ => return .ok []
  | fuel + 1, channel, count => do
    match (← get).read channel count with
    | .error e => return .error e
    | .ok (some text, w) =>
      set w
      return .ok text
    | .ok (none, _) =>
      pauseUntil 0 (·.canRead channel)
      readWithin fuel channel count

/-- A bound for how often a process waits for one thing. -/
def patience : Nat := 1000000

/-- Reads from a channel, at most a number of characters. -/
def receive (channel count : Nat) : Kernel (Except Fault Octets) := readWithin patience channel count

/-- How much is read at once. -/
def blockSize : Nat := 131072

/-- Reads all pieces up to the end of a channel. The first argument bounds their number. -/
def receivePieces : Nat → Nat → Kernel (Except Fault (List Octets))
  | 0, _ => return .ok []
  | fuel + 1, channel => do
    match ← receive channel blockSize with
    | .error e => return .error e
    | .ok [] => return .ok []
    | .ok piece =>
      match ← receivePieces fuel channel with
      | .error e => return .error e
      | .ok more => return .ok (piece :: more)

/-- Reads a channel up to its end. -/
def receiveAll (channel : Nat) : Kernel (Except Fault Octets) := do
  match ← receivePieces patience channel with
  | .error e => return .error e
  | .ok pieces => return .ok pieces.flatten

/-- Writes to a channel; where nobody reads it, a signal comes first. The first argument bounds how
often it has to wait. -/
def writeWithin : Nat → Nat → Octets → Kernel (Except Fault Unit)
  | 0, _, _ => return .ok ()
  | fuel + 1, channel, text => do
    match (← get).write channel text with
    | .error .noReader =>
      let p ← self
      unless p.ignored.contains 13 || p.handled.contains 13 do throw 13
      if p.handled.contains 13 then
        let n ← read
        modify fun w => w.send n 13
      return .error .noReader
    | .error e => return .error e
    | .ok ([], w) =>
      set w
      return .ok ()
    | .ok (left, w) =>
      set w
      pauseUntil 0 (·.canWrite channel)
      writeWithin fuel channel left

/-- Writes to a channel. -/
def emit (channel : Nat) (text : Octets) : Kernel (Except Fault Unit) :=
  writeWithin patience channel text

/-- Writes to a stream. -/
def put (stream : Nat) (text : Octets) : Kernel (Except Fault Unit) := do
  match ← stream? stream with
  | none => return .error .closed
  | some channel => emit channel text

/-- Opens a file. -/
def openFile (p : Path) (mode : OpenMode) (mask : Nat) : Kernel (Except IoError Nat) := do
  let w ← get
  match w.openFile (← self).streams p mode mask with
  | .error e => return .error e
  | .ok (w, c) =>
    set w
    return .ok (← newChannel c)

/-! ## Other processes -/

/-- Starts a process that has the streams of this one, changed by a function. -/
def spawn (session : Session) (errand : Errand) (change : Process → Process) : Kernel Nat := do
  let parent ← read
  let p ← self
  let n := (← get).next
  let child := change { p with parent, pending := [], stopped := false, ending := none }
  modify fun w =>
    { w with
      processes := w.processes ++ [(n, child)]
      next := n + 1
      starts := w.starts ++ [⟨n, { session with process := n }, errand⟩] }
  return n

/-- Takes a child that has ended off the table. -/
def reap : Kernel (Option (Nat × ExitStatus)) := do
  match (← get).endedChild? (← read) with
  | none => return none
  | some (n, ending) =>
    modify fun w => w.forgetProcess n
    return some (n, ending)

/-- Sends a signal, and says whether there is such a process. -/
def send (n signal : Nat) : Kernel Bool := do
  if ((← get).process? n).isNone then return false
  else
    modify fun w => w.send n signal
    if n = (← read) then
      let p ← self
      match Process.fatal? p with
      | some s => throw s
      | none =>
        if p.pending.any stopSignals.contains then sleep 0
    return true

end Kernel
end Bundler.Shell
