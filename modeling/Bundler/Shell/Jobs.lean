import Bundler.Shell.Action
/-!
# Jobs of a shell

A shell keeps the processes that it starts as numbered jobs, takes note of their ends, and waits for
them. The number of a job is used again when it has ended and somebody was told.
-/

namespace Bundler.Shell

/-- What is said when a process is ended by a signal, from signal 1 on. -/
def deathTexts : List String :=
  ["Hangup", "Interrupt", "Quit", "Illegal instruction", "Trace/breakpoint trap", "Aborted",
    "Bus error", "Floating point exception", "Killed", "User defined signal 1",
    "Segmentation fault", "User defined signal 2", "Broken pipe", "Alarm clock", "Terminated",
    "Stack fault", "Child exited", "Continued", "Stopped (signal)", "Stopped", "Stopped (tty input)",
    "Stopped (tty output)", "Urgent I/O condition", "CPU time limit exceeded",
    "File size limit exceeded", "Virtual timer expired", "Profiling timer expired", "Window changed",
    "I/O possible", "Power failure", "Bad system call", "Unknown signal 32", "Unknown signal 33"]

/-- What is said when a process is ended by a signal. -/
def deathText (signal : Nat) : Octets :=
  match deathTexts[signal - 1]? with
  | some text => text.toList
  | none => "Real-time signal ".toList ++ .ofNat (signal - 34)

/-- How a job ended, or that it has not. -/
def Job.text (j : Job) : Octets :=
  if ! j.isDone then "Running".toList
  else
    match (j.parts.getLast?).bind (·.ending) with
    | some (.signal n) => deathText n
    | some (.code 0) => "Done".toList
    | some (.code n) => "Done(".toList ++ .ofNat n ++ [')']
    | none => []

/-- The exit code of a job: that of its last process. -/
def Job.code (j : Job) : Nat := (((j.parts.getLast?).bind (·.ending)).map seenCode).getD 0

namespace Jobs

/-- The job with a number. -/
def job? (n : Nat) : Action (Option Job) := do
  return ((← Action.session).jobs[n - 1]?).join

/-- Changes the jobs. -/
def change (f : Job → Job) : Action Unit :=
  Action.update fun s => { s with jobs := s.jobs.map (·.map f) }

/-- Frees the number of a job. -/
def free (n : Nat) : Action Unit :=
  Action.update fun s =>
    { s with jobs := s.jobs.set (n - 1) none, jobOrder := s.jobOrder.filter (· ≠ n) }

/-- A new job without processes gets the first number that is free, or that nobody needs any more. -/
def new : Action Nat := do
  let s ← Action.session
  let place := (s.jobs.findIdx? fun j => j.all fun j => j.isDone && j.told).getD s.jobs.length
  let jobs := if place < s.jobs.length then s.jobs else s.jobs ++ [none]
  Action.update fun s =>
    { s with
      jobs := jobs.set place (some ⟨[], false⟩)
      jobOrder := (place + 1) :: s.jobOrder.filter (· ≠ place + 1) }
  return place + 1

/-- Adds a process to a job. -/
def add (n process : Nat) : Action Unit :=
  Action.update fun s =>
    { s with jobs := s.jobs.modify (n - 1) (·.map fun j =>
      { j with parts := j.parts ++ [⟨process, none⟩] }) }

/-- Takes note of the children that have ended. Of the processes of an awaited job, it is said when a
signal ended them. The first argument bounds their number. -/
def collectWithin (awaited : Option Nat) : Nat → Action Unit
  | 0 => return ()
  | fuel + 1 => do
    match ← Action.lift Kernel.reap with
    | none => return ()
    | some (process, ending) =>
      let isAwaited ← match awaited with
        | none => pure false
        | some n => do
          pure ((← job? n).any fun j => j.parts.any fun p => p.process = process)
      change fun j =>
        { j with parts := j.parts.map fun p =>
          if p.process = process && p.ending.isNone then { p with ending := some ending } else p }
      match ending with
      | .signal n =>
        if isAwaited && n ≠ 2 && n ≠ 13 then
          let _ ← Action.write 2 (deathText n ++ ['\n'])
      | .code _ => pure ()
      collectWithin awaited fuel

/-- Takes note of the children that have ended. -/
def collect (awaited : Option Nat) : Action Unit := do
  collectWithin awaited ((← Action.world).processes.length + 1)

/-- Waits until a child has ended, or a signal has come if that counts. -/
def pause (interruptible : Bool) : Action Unit := do
  let n := (← Action.session).process
  Action.lift (Kernel.pauseUntil 0 fun w =>
    (w.endedChild? n).isSome || ! w.hasChildren n || (interruptible && w.hasSignals n))

/-- Waits until something is done, and says whether it is; a signal may come before, also when a child
ends with it. The first argument bounds how often a child ends. -/
def awaitWithin (awaited : Option Nat) (interruptible : Bool) (isDone : Session → Bool) :
    Nat → Action Bool
  | 0 => return true
  | fuel + 1 => do
    collect awaited
    if isDone (← Action.session) then return true
    else if ! (← Action.world).hasChildren (← Action.session).process then return true
    else
      pause interruptible
      Action.takeSignals
      if interruptible && ! (← Action.session).caught.isEmpty then return false
      else awaitWithin awaited interruptible isDone fuel

/-- Waits for a job, and says whether it has ended; a signal may come before. -/
def await (n : Nat) (interruptible : Bool) : Action Bool :=
  awaitWithin (some n) interruptible (fun s => ((s.jobs[n - 1]?).join).all Job.isDone)
    Kernel.patience

/-- Waits for all jobs, and says whether they have ended; a signal may come before. -/
def awaitAll : Action Bool := do
  let done ← awaitWithin none true (fun s => s.jobs.all fun j => j.all Job.isDone) Kernel.patience
  change fun j => if j.isDone then { j with told := true } else j
  return done

/-- Waits for a job that the shell does not leave alone; its exit code is given back. -/
def finish (n : Nat) : Action Nat := do
  let _ ← await n false
  let code := ((← job? n).map Job.code).getD 0
  free n
  return code

/-! ## Names of jobs -/

/-- The number of the job that a text with a percent sign names. -/
def named (s : Option Octets) : Action Nat := do
  let order := (← Action.session).jobOrder
  let current : Action Nat :=
    match order with
    | n :: _ => return n
    | [] => Action.fail "No current job".toList
  match s with
  | none => current
  | some s =>
    match s with
    | '%' :: name =>
      if name = [] || name = ['+'] || name = ['%'] then current
      else if name = ['-'] then
        match order with
        | _ :: n :: _ => return n
        | _ => Action.fail "No previous job".toList
      else
        match Octets.nat? name with
        | some n =>
          if (← job? n).isSome && 0 < n then return n
          else Action.fail ("No such job: ".toList ++ s)
        | none => Action.fail ("No such job: ".toList ++ s)
    | _ => Action.fail ("No such job: ".toList ++ s)

/-- A text in a column of a width, and at least one blank. -/
def padded (s : Octets) (width : Nat) : Octets := s ++ List.replicate (max 1 (width - s.length)) ' '

/-- A job as it is listed; with `long`, its processes are shown. -/
def line (long : Bool) (n : Nat) (order : List Nat) (j : Job) : Octets :=
  let mark := if order.head? = some n then '+' else if order[1]? = some n then '-' else ' '
  let start := '[' :: Octets.ofNat n ++ "] ".toList ++ [mark, ' ']
  match j.parts with
  | [] => []
  | first :: more =>
    if long then
      let head := padded (start ++ Octets.ofNat first.process ++ ' ' :: j.text) 33
      let others := more.flatMap fun p =>
        " |\n".toList ++
          padded (List.replicate start.length ' ' ++ Octets.ofNat p.process ++ [' ']) 33
      head ++ others ++ ['\n']
    else padded (start ++ j.text) 33 ++ more.flatMap (fun _ => " | ".toList) ++ ['\n']

end Jobs
end Bundler.Shell
