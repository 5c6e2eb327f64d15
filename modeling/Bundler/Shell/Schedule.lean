import Bundler.Shell.Task
/-!
# Running processes side by side

A world is run by taking one process after the other as far as its next pause. It is always the one
whose time comes first among those that need not wait for anything else, so that what happens is the
same whenever the same world is run.
-/

namespace Bundler.Shell

/-- A process between two pauses. -/
structure Thread where
  process : Nat
  /-- When it goes on at the earliest. -/
  time : Nat
  ready : World → Bool
  resume : World → Task (ExitStatus × World)

namespace Schedule

/-- How long others still go on when the main process has ended, in millionths of a second. -/
def afterTime : Nat := 600

/-- Whether the process of a thread has not ended and is not stopped. -/
def isAlive (w : World) (t : Thread) : Bool :=
  (w.process? t.process).any fun p => p.ending.isNone && ! p.stopped

/-- The thread that goes on next, with the time when it does. -/
def next? (w : World) (threads : List Thread) : Option (Nat × Thread) :=
  threads.foldl (fun best t =>
    if ! (isAlive w t && t.ready w) then best
    else
      let time := max t.time w.now
      match best with
      | some (earliest, _) => if time < earliest then some (time, t) else best
      | none => some (time, t)) none

/-- The end of a process, if it has ended or is gone. -/
def ending? (w : World) (n : Nat) : Option ExitStatus :=
  match w.process? n with
  | none => some (.code 0)
  | some p => p.ending

variable (launch : Start → World → Task (ExitStatus × World))

/-- The threads of processes that begin. -/
def begin (now : Nat) (starts : List Start) : List Thread :=
  starts.map fun s => ⟨s.process, now + Kernel.startTime, fun _ => true, launch s⟩

/-- Runs threads until the main process has ended and others have had a little more time. The first
argument bounds the number of steps. -/
def run (main : Nat) : Nat → Option Nat → World → List Thread → World
  | 0, _, w, _ => w
  | fuel + 1, deadline, w, threads =>
    let w := threads.foldl (fun w t => w.settle t.process) w
    let deadline :=
      if deadline.isNone && (ending? w main).isSome then some (w.now + afterTime) else deadline
    match next? w threads with
    | none => w
    | some (time, t) =>
      if deadline.any (· < time) then w
      else
        let others := threads.filter (·.process ≠ t.process)
        match t.resume { w with now := time } with
        | .done (ending, w) =>
          let new := begin launch time w.starts
          run main fuel deadline ({ w with starts := [] }.finish t.process ending) (others ++ new)
        | .pause delay ready w resume =>
          let new := begin launch time w.starts
          run main fuel deadline { w with starts := [] }
            (others ++ ⟨t.process, time + delay, ready, resume⟩ :: new)

/-- A bound for the number of steps. -/
def maxSteps : Nat := 20000000

/-- Runs a first process to its end. A process that waits forever is ended. -/
def runMain (first : Start) (w : World) : World × ExitStatus :=
  let thread : Thread := ⟨first.process, w.now, fun _ => true, launch first⟩
  let w := run launch first.process maxSteps none w [thread]
  (w, (ending? w first.process).getD (.signal 9))

end Schedule
end Bundler.Shell
