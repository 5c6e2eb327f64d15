import Bundler.TaskGraph.Basic
/-!
# Runs of a task graph

A coordinator hands ready tasks to workers through a queue that holds at most `concurrency` of them,
and the workers report back through a second queue. The first handing-over, `priming`, waits where
the queue is full; every later one gives up there. As soon as a task has failed, or the caller's
cancellation is seen, the run has an error: nothing more is handed over, and the coordinator waits
until all that was handed over has come back.

`Run` is the state of all of this between two steps, `Run.move` makes one step, and which step is
made is anybody's choice: `Run.Reaches` holds of all that can happen. `Run.solve` makes the choices
itself.
-/

namespace Bundler

/-- How a task ended. -/
abbrev TaskResult (ε : Type) := Except (Failure ε) Unit

/-- What the tasks do: given whether the run was cancelled when the task started, a task changes the
world and ends. -/
abbrev Work (σ ε : Type) := Bool → TaskId → σ → σ × TaskResult ε

/-- Where the coordinator stands. -/
inductive Phase (ε : Type) where
  /-- Before its first look at the graph. -/
  | entering
  /-- Handing over the tasks of a list, and whether any was handed over. -/
  | feeding (blocking : Bool) (ready : List TaskId) (sent : Bool)
  /-- Between putting a task into the queue and taking note of it. -/
  | recording (blocking : Bool) (id : TaskId) (ready : List TaskId)
  /-- Between two messages. -/
  | waiting
  | returned (result : Except (SolveError ε) Unit)

/-- What happened to a task, or that the cancellation was seen. -/
inductive Event (ε : Type) where
  | queued (id : TaskId)
  | started (id : TaskId)
  | finished (id : TaskId) (result : TaskResult ε)
  | received (id : TaskId) (result : TaskResult ε)
  | observed

/-- A run between two steps. -/
structure Run (σ ε : Type) where
  phase : Phase ε
  /-- Tasks on their way to the workers, the next one first. -/
  queue : List TaskId
  /-- Tasks that workers have taken and not begun yet. -/
  taken : List TaskId
  /-- Tasks that workers have begun, with how they end. -/
  working : List (TaskId × TaskResult ε)
  /-- Results on their way back, the next one first. -/
  done : List (TaskId × TaskResult ε)
  /-- Tasks whose result was received, failed ones included. -/
  completed : List TaskId
  /-- Tasks that the coordinator knows to be handed over. -/
  inFlight : List TaskId
  /-- The first error. -/
  error : Option (SolveError ε)
  /-- Whether the tasks are told to stop. -/
  token : Bool
  /-- Whether the caller has cancelled. -/
  caller : Bool
  /-- Whether the coordinator still listens to the caller. -/
  watching : Bool
  world : σ
  /-- All that happened, the latest first. -/
  history : List (Event ε)

namespace Run

variable {σ ε : Type}

/-- A run before its first step. -/
def start (cancelled : Bool) (world : σ) : Run σ ε :=
  { phase := .entering, queue := [], taken := [], working := [], done := [], completed := [], inFlight := []
    error := none, token := false, caller := cancelled, watching := true, world, history := [] }

/-- Whether there is nothing more to hand over: the run has an error, or every task has come
back. -/
def finished (g : TaskGraph) (s : Run σ ε) : Bool :=
  s.error.isSome || decide (g.size ≤ s.completed.length)

/-- Whether a task can be handed over: it was not yet, and all its dependencies have come back. -/
def isReady (g : TaskGraph) (s : Run σ ε) (id : TaskId) (deps : List TaskId) : Bool :=
  ! s.inFlight.contains id && ! s.completed.contains id &&
    deps.all fun d => s.completed.contains d || ! g.ids.contains d

/-- The tasks that can be handed over, ascending. -/
def ready (g : TaskGraph) (s : Run σ ε) : List TaskId :=
  (g.tasks.filter fun (id, deps) => s.isReady g id deps).map Prod.fst

/-- The tasks that have not come back, ascending. -/
def pending (g : TaskGraph) (s : Run σ ε) : List TaskId :=
  g.ids.filter fun id => ! s.completed.contains id

/-- Takes note of an error; only the first one is kept. The tasks are told to stop. -/
def fail (s : Run σ ε) (e : SolveError ε) : Run σ ε :=
  { s with error := s.error.or (some e), token := true }

/-- Takes note of a task that has come back. -/
def complete (s : Run σ ε) (id : TaskId) : Run σ ε :=
  { s with
    completed := if s.completed.contains id then s.completed else id :: s.completed
    inFlight := s.inFlight.filter (· ≠ id) }

/-- Ends with an answer. -/
def answer (s : Run σ ε) (result : Except (SolveError ε) Unit) : Run σ ε :=
  { s with phase := .returned result }

/-- The answer of a run that ends now. -/
def verdict (s : Run σ ε) : Except (SolveError ε) Unit :=
  match s.error with
  | some e => .error e
  | none => .ok ()

/-- The end of a handing-over. Where nothing was handed over and nothing is under way, nothing ever
will be. -/
def settle (g : TaskGraph) (s : Run σ ε) (blocking sent : Bool) : Run σ ε :=
  if ! sent && (blocking || s.inFlight.isEmpty) then s.answer (.error (.unsolvable (s.pending g)))
  else { s with phase := .waiting }

/-- Receives the result of a task and hands over what it makes ready. -/
def receive (g : TaskGraph) (s : Run σ ε) (id : TaskId) (result : TaskResult ε) : Run σ ε :=
  let s := { s.complete id with history := .received id result :: s.history }
  let s := match result with
    | .ok () => s
    | .error failure => s.fail (.task id failure)
  if s.finished g then { s with phase := .waiting }
  else { s with phase := .feeding false (s.ready g) false }

/-- The coordinator's next step, if it is not blocked: by a full queue while it primes, or by the
lack of results while it waits. -/
def coordinate (g : TaskGraph) (s : Run σ ε) : Option (Run σ ε) :=
  match s.phase with
  | .entering =>
    if s.finished g then some (s.answer (.ok ()))
    else if s.caller then some ({ s with token := true }.answer (.error .cancelled))
    else some { s with phase := .feeding true (s.ready g) false }
  | .feeding blocking [] sent => some (s.settle g blocking sent)
  | .feeding blocking (id :: rest) sent =>
    if s.queue.length < g.concurrency then
      some { s with
        queue := s.queue ++ [id]
        phase := .recording blocking id rest
        history := .queued id :: s.history }
    else if blocking then none
    else some (s.settle g blocking sent)
  | .recording blocking id rest =>
    some { s with inFlight := id :: s.inFlight, phase := .feeding blocking rest true }
  | .waiting =>
    if s.finished g && s.inFlight.isEmpty then some (s.answer s.verdict)
    else
      match s.done with
      | [] => none
      | (id, result) :: rest => some ({ s with done := rest }.receive g id result)
  | .returned _ => none

/-- The coordinator sees the caller's cancellation, once, while it waits. -/
def observe (g : TaskGraph) (s : Run σ ε) : Option (Run σ ε) :=
  match s.phase with
  | .waiting =>
    if s.finished g && s.inFlight.isEmpty then none
    else if s.watching && s.caller then
      some ({ s with watching := false, history := .observed :: s.history }.fail .cancelled)
    else none
  | _ => none

/-- A free worker takes the next task from the queue. -/
def take (g : TaskGraph) (s : Run σ ε) : Option (Run σ ε) :=
  match s.queue with
  | [] => none
  | id :: rest =>
    if s.taken.length + s.working.length < g.concurrency then
      some { s with queue := rest, taken := s.taken ++ [id] }
    else none

/-- A worker begins the task that it has taken. Only now does the task look whether it is told to
stop. -/
def launch (work : Work σ ε) (s : Run σ ε) (i : Nat) : Option (Run σ ε) :=
  match s.taken[i]? with
  | none => none
  | some id =>
    let (world, result) := work s.token id s.world
    some { s with
      taken := s.taken.eraseIdx i
      working := s.working ++ [(id, result)]
      world
      history := .started id :: s.history }

/-- A worker sends the result of its task. -/
def finish (s : Run σ ε) (i : Nat) : Option (Run σ ε) :=
  match s.working[i]? with
  | none => none
  | some (id, result) =>
    some { s with
      working := s.working.eraseIdx i
      done := s.done ++ [(id, result)]
      history := .finished id result :: s.history }

/-- Whose turn it is. -/
inductive Move where
  | coordinate
  | observe
  | take
  /-- One of the workers that have taken a task begins it. -/
  | launch (i : Nat)
  /-- One of the busy workers finishes. -/
  | finish (i : Nat)
  /-- The caller cancels. -/
  | cancel
  deriving DecidableEq, Repr

/-- One step of a run, if it can be made. -/
def move (g : TaskGraph) (work : Work σ ε) (s : Run σ ε) : Move → Option (Run σ ε)
  | .coordinate => s.coordinate g
  | .observe => s.observe g
  | .take => s.take g
  | .launch i => s.launch work i
  | .finish i => s.finish i
  | .cancel => some { s with caller := true }

/-- All that a run can become. -/
inductive Reaches (g : TaskGraph) (work : Work σ ε) : Run σ ε → Run σ ε → Prop where
  | refl (s : Run σ ε) : Reaches g work s s
  | step {s t u : Run σ ε} (m : Move) (before : Reaches g work s t)
      (made : t.move g work m = some u) : Reaches g work s u

/-! ## A run without choices -/

/-- A task that is taken is begun at once. Else the coordinator goes first, and hears the caller
before the workers; then free workers take tasks; then the first busy one finishes. The caller
cancels as soon as `cancels` says so. -/
def choose (g : TaskGraph) (cancels : Run σ ε → Bool) (s : Run σ ε) : Move :=
  if ! s.caller && cancels s then .cancel
  else if ! s.taken.isEmpty then .launch 0
  else if (s.observe g).isSome then .observe
  else if (s.coordinate g).isSome then .coordinate
  else if ! s.queue.isEmpty && s.working.length < g.concurrency then .take
  else .finish 0

/-- Makes steps until none can be made, at most as many as the first argument says. -/
def continue_ (g : TaskGraph) (work : Work σ ε) (cancels : Run σ ε → Bool) :
    Nat → Run σ ε → Run σ ε
  | 0, s => s
  | n + 1, s =>
    match s.move g work (s.choose g cancels) with
    | none => s
    | some s' => continue_ g work cancels n s'

/-- More steps than any run of the graph makes. -/
def maxSteps (g : TaskGraph) : Nat := 8 * (g.size + 2)

/-- Runs the graph to its end. -/
def solve (g : TaskGraph) (work : Work σ ε) (cancels : Run σ ε → Bool) (cancelled : Bool)
    (world : σ) : Run σ ε :=
  continue_ g work cancels (maxSteps g) (start cancelled world)

/-- The answer of a run. -/
def result (s : Run σ ε) : Except (SolveError ε) Unit :=
  match s.phase with
  | .returned r => r
  | _ => s.verdict

/-- The tasks that were started, ascending. -/
def startedIds (s : Run σ ε) : List TaskId :=
  (s.history.filterMap fun
    | .started id => some id
    | _ => none).mergeSort

/-- Whether every task in a history was started after all its dependencies in the graph had
finished. -/
def inOrder (g : TaskGraph) : List (Event ε) → Bool
  | [] => true
  | .started id :: before =>
    let finishedBefore (d : TaskId) := before.any fun
      | .finished f _ => f == d
      | _ => false
    (g.tasks.all fun (k, deps) =>
      k != id || deps.all fun d => ! g.ids.contains d || finishedBefore d) && inOrder g before
  | _ :: before => inOrder g before

end Run
end Bundler
