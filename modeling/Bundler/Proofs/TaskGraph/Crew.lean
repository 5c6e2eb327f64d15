import Bundler.Proofs.TaskGraph.Outcome
import Mathlib.Algebra.GroupWithZero.Nat
/-!
# The workers of a run

The coordinator returns before its workers have stopped. With it goes the queue that the workers take tasks from, and
each of them stops when it finds the queue empty; only then is the whole run over. A `Crew` is a run with its workers.
Until it is over, the coordinator or a worker can make a step (`Sound.exists_step`), and what they do altogether is
bounded by the number of tasks and workers (`Sound.after`). So nobody waits for what cannot come: while the coordinator
waits for a result, one will come back whatever is done next (`Sound.must_come_back`).
-/

namespace Bundler

namespace Run

variable {σ ε : Type} {g : TaskGraph} {work : Work σ ε} {s t : Run σ ε}

theorem Step.returned {m : Move} (h : Step g work s m t) (hr : s.Returned) : t.Returned := by
  obtain ⟨r, hr⟩ := hr
  cases h with
  | take | launch | finish | cancel => exact ⟨r, hr⟩
  | leave phase | decline phase | prime phase | settle _ _ _ phase | send _ _ _ _ phase | note _ _ _ phase
  | conclude phase | receive _ _ _ phase | observe phase =>
    rw [hr] at phase
    cases phase

/-- While the coordinator waits, there is a task that it knows to be handed over, unless it can return. -/
theorem Sound.inFlight_of_waiting (h : s.Sound g) (phase : s.phase = .waiting) (blocked : s.coordinate g = none) :
    s.done = [] ∧ s.inFlight ≠ [] := by
  have hp := h.phase
  simp only [PhaseSound, phase] at hp
  simp only [coordinate, phase] at blocked
  split at blocked
  next => cases blocked
  next hgoes =>
    split at blocked
    next hd =>
      refine ⟨hd, fun hi => ?_⟩
      simp only [hi, List.isEmpty_nil, Bool.and_true, Bool.not_eq_true, ne_eq, not_true_eq_false, or_false] at hgoes hp
      rw [hp] at hgoes
      cases hgoes
    next => cases blocked

/-- A coordinator that waits for a result goes on waiting until one has come back. -/
theorem Step.waits {m : Move} (h : Step g work s m t) (phase : s.phase = .waiting) (hd : s.done = [])
    (hi : s.inFlight ≠ []) : t.phase = .waiting ∧ t.inFlight ≠ [] := by
  cases h with
  | observe | take | launch | finish | cancel => exact ⟨phase, hi⟩
  | conclude _ _ idle => exact absurd idle hi
  | receive _ _ _ _ front =>
    rw [hd] at front
    cases front
  | leave at_ | decline at_ | prime at_ | settle _ _ _ at_ | send _ _ _ _ at_ | note _ _ _ at_ =>
    rw [phase] at at_
    cases at_

end Run

open Run (Move)

/-- A run with its workers. -/
structure Crew (σ ε : Type) where
  run : Run σ ε
  /-- How many workers have stopped. -/
  stopped : Nat

namespace Crew

variable {σ ε : Type} {g : TaskGraph} {work : Work σ ε} {c c' : Crew σ ε}

/-- Before the first step, all workers wait for tasks. -/
def start (cancelled : Bool) (world : σ) : Crew σ ε := ⟨.start cancelled world, 0⟩

/-- The run is over: the coordinator has returned, and every worker has stopped. -/
def Over (g : TaskGraph) (c : Crew σ ε) : Prop := c.run.Returned ∧ c.stopped = g.concurrency

/-- Some worker neither holds a task nor has stopped. -/
abbrev Free (g : TaskGraph) (c : Crew σ ε) : Prop :=
  c.run.taken.length + c.run.working.length + c.stopped < g.concurrency

/-- Whose turn it is. -/
inductive Turn where
  | run (m : Move)
  /-- A worker stops. -/
  | stop
  deriving DecidableEq, Repr

/-- One step, if it can be made. A worker stops where the queue is empty and nobody can put anything into it. -/
def step (g : TaskGraph) (work : Work σ ε) (c : Crew σ ε) : Turn → Option (Crew σ ε)
  | .run m => if m = .take ∧ ¬ c.Free g then none else (c.run.move g work m).map fun s => { c with run := s }
  | .stop =>
    match c.run.phase, c.run.queue with
    | .returned _, [] => if c.Free g then some { c with stopped := c.stopped + 1 } else none
    | _, _ => none

/-- What some turns one after the other lead to. -/
def after (g : TaskGraph) (work : Work σ ε) (c : Crew σ ε) (turns : List Turn) : Option (Crew σ ε) :=
  turns.foldlM (step g work) c

/-- How often channels are used and tasks start and end in a turn. A worker that stops finds its channel closed. -/
def Turn.operations : Turn → Nat
  | .run m => m.operations
  | .stop => 1

theorem Turn.operations_pos : ∀ {turn : Turn}, turn ≠ .run .cancel → 0 < turn.operations
  | .run _, h => Move.operations_pos fun hm => h (congrArg Turn.run hm)
  | .stop, _ => Nat.one_pos

/-- Whoever's turn it is, sooner or later `P` holds; a caller that has cancelled may do so again, to no effect. -/
inductive Must (g : TaskGraph) (work : Work σ ε) (P : Crew σ ε → Prop) : Crew σ ε → Prop where
  | now {c : Crew σ ε} (holds : P c) : Must g work P c
  | later {c : Crew σ ε} (goesOn : ∃ turn c', turn ≠ .run .cancel ∧ c.step g work turn = some c')
    (always : ∀ turn c', c.step g work turn = some c' → (turn = .run .cancel → c.run.caller = false) →
      Must g work P c') : Must g work P c

/-! ## Steps -/

/-- One step, and whose it is. -/
inductive Step (g : TaskGraph) (work : Work σ ε) (c : Crew σ ε) : Turn → Crew σ ε → Prop where
  | run (m : Move) (s : Run σ ε) (made : c.run.move g work m = some s) (free : m = .take → c.Free g) :
    Step g work c (.run m) { c with run := s }
  | stop (returned : c.run.Returned) (empty : c.run.queue = []) (free : c.Free g) :
    Step g work c .stop { c with stopped := c.stopped + 1 }

variable {turn : Turn}

theorem step_iff : c.step g work turn = some c' ↔ Step g work c turn c' := by
  constructor
  · intro h
    cases turn with
    | run m =>
      simp only [step] at h
      split at h
      next => cases h
      next hfree =>
        obtain ⟨s, made, rfl⟩ := Option.map_eq_some_iff.1 h
        exact .run m s made fun hm => not_not.1 fun hnot => hfree ⟨hm, hnot⟩
    | stop =>
      simp only [step] at h
      split at h
      next r phase empty =>
        split at h
        next hfree => cases h; exact .stop ⟨r, phase⟩ empty hfree
        next => cases h
      next => cases h
  · rintro (⟨m, s, made, free⟩ | ⟨⟨r, phase⟩, empty, free⟩)
    · rw [step, if_neg fun ⟨hm, hnot⟩ => hnot (free hm), made, Option.map_some]
    · rw [step, phase, empty]
      exact if_pos free

/-- What holds of a run with its workers. -/
structure Sound (g : TaskGraph) (c : Crew σ ε) : Prop where
  run : c.run.Sound g
  /-- No worker stops before the coordinator has returned. -/
  early : ¬ c.run.Returned → c.stopped = 0
  stopped_le : c.stopped ≤ g.concurrency

theorem sound_start (cancelled : Bool) (world : σ) : (start cancelled world : Crew σ ε).Sound g :=
  ⟨Run.sound_start cancelled world, fun _ => rfl, Nat.zero_le _⟩

/-- More operations than are left. -/
def remaining (g : TaskGraph) (c : Crew σ ε) : Nat := c.run.remaining g + (g.concurrency - c.stopped)

namespace Sound

variable (h : c.Sound g)
include h

theorem step (hstep : Step g work c turn c') : c'.Sound g := by
  cases hstep with
  | run m s made =>
    have hstep := Run.step_of_move made
    exact ⟨h.run.step hstep, fun hr => h.early fun hbefore => hr (hstep.returned hbefore), h.stopped_le⟩
  | stop returned _ free =>
    exact ⟨h.run, fun hr => absurd returned hr, Nat.le_trans (Nat.add_le_add_right (Nat.le_add_left ..) 1) free⟩

/-- The operations of a turn are taken off those that are left. -/
theorem operations_le (hstep : Step g work c turn c') : turn.operations + c'.remaining g ≤ c.remaining g := by
  cases hstep with
  | run m s made =>
    have hle := h.run.operations_le (Run.step_of_move made)
    simp only [remaining, Turn.operations]
    omega
  | stop _ _ free =>
    simp only [remaining, Turn.operations]
    omega

theorem remaining_lt (hstep : Step g work c turn c') (hcancel : turn = .run .cancel → c.run.caller = false) :
    c'.remaining g < c.remaining g := by
  by_cases hturn : turn = .run .cancel
  · subst hturn
    have hcancel := hcancel rfl
    cases hstep with
    | run m s made =>
      have hlt := h.run.remaining_lt ⟨_, made, fun _ => hcancel⟩
      simp only [remaining]
      omega
  · have hle := h.operations_le hstep
    have hpos := Turn.operations_pos hturn
    omega

/-- What was done so far and what is left is no more than what was left before. -/
theorem after {turns : List Turn} (hafter : c.after g work turns = some c') :
    c'.Sound g ∧ (turns.map Turn.operations).sum + c'.remaining g ≤ c.remaining g := by
  induction turns generalizing c with
  | nil =>
    cases hafter
    exact ⟨h, by simp⟩
  | cons turn rest ih =>
    rw [Crew.after, List.foldlM_cons] at hafter
    obtain ⟨next, hstep, hrest⟩ := Option.bind_eq_some_iff.1 hafter
    rw [step_iff] at hstep
    obtain ⟨hsound, hle⟩ := ih (h.step hstep) hrest
    have hturn := h.operations_le hstep
    refine ⟨hsound, ?_⟩
    rw [List.map_cons, List.sum_cons]
    omega

/-! ## Somebody can always go on -/

theorem exists_step (work : Work σ ε) (hover : ¬ c.Over g) :
    ∃ turn c', turn ≠ .run .cancel ∧ c.step g work turn = some c' := by
  by_cases hr : c.run.Returned
  · have hle := h.stopped_le
    have hne : c.stopped ≠ g.concurrency := fun heq => hover ⟨hr, heq⟩
    obtain ⟨r, phase⟩ := hr
    obtain ⟨hqueue, htaken, hworking, -⟩ := h.run.idle phase
    have hfree : c.Free g := by
      simp only [Free, htaken, hworking, List.length_nil]
      omega
    exact ⟨.stop, _, by decide, step_iff.2 (.stop ⟨r, phase⟩ hqueue hfree)⟩
  · obtain ⟨m, s, hm, made⟩ := h.run.exists_move work hr
    refine ⟨.run m, _, fun heq => hm (Turn.run.inj heq), step_iff.2 (.run m s made fun htake => ?_)⟩
    subst htake
    -- no worker has stopped, so the one that can take a task is free
    cases Run.step_of_move made with
    | take _ _ _ room => simpa [Free, h.early hr] using room

/-- What every step keeps until `P` holds leads to `P`. -/
theorem must {P I : Crew σ ε → Prop} (hover : ∀ c : Crew σ ε, c.Over g → I c → P c) (hinit : I c)
    (hkeep : ∀ c turn c', c.Sound g → I c → ¬ P c → Step g work c turn c' → I c') : Must g work P c := by
  induction hn : c.remaining g using Nat.strongRecOn generalizing c with
  | ind n ih =>
    by_cases hp : P c
    · exact .now hp
    · refine .later (h.exists_step work fun hend => hp (hover c hend hinit)) fun turn c' hstep hcancel => ?_
      rw [step_iff] at hstep
      exact ih _ (hn ▸ h.remaining_lt hstep hcancel) (h.step hstep) (hkeep c turn c' h hinit hp hstep) rfl

theorem must_end (work : Work σ ε) : Must g work (Over g) c :=
  h.must (I := fun _ => True) (fun _ hover _ => hover) trivial fun _ _ _ _ _ _ _ => trivial

/-- While the coordinator waits for a result, one will come back. -/
theorem must_come_back (work : Work σ ε) (phase : c.run.phase = .waiting) (blocked : c.run.coordinate g = none) :
    Must g work (fun c' => c'.run.done ≠ []) c := by
  obtain ⟨-, hi⟩ := h.run.inFlight_of_waiting phase blocked
  refine h.must (I := fun c => c.run.phase = .waiting ∧ c.run.inFlight ≠ []) ?_ ⟨phase, hi⟩ ?_
  · rintro c ⟨⟨r, hr⟩, -⟩ ⟨phase, -⟩
    rw [hr] at phase
    cases phase
  · rintro c turn c' - ⟨phase, hi⟩ hd hstep
    rw [ne_eq, not_not] at hd
    cases hstep with
    | run m s made => exact (Run.step_of_move made).waits phase hd hi
    | stop => exact ⟨phase, hi⟩

end Sound

/-- Wherever a run has come to, the coordinator or a worker can make a step unless all is over; what they have done is
bounded by the number of tasks and workers; while the coordinator waits for a result, one will come back; and the run
ends, whoever's turn it is. -/
theorem progress {cancelled : Bool} {world : σ} {turns : List Turn}
    (h : (start cancelled world : Crew σ ε).after g work turns = some c) :
    (¬ c.Over g → ∃ turn c', turn ≠ .run .cancel ∧ c.step g work turn = some c') ∧
    (turns.map Turn.operations).sum ≤ 12 * g.size + g.concurrency + 10 ∧
    (c.run.phase = .waiting → c.run.coordinate g = none → Must g work (fun c' => c'.run.done ≠ []) c) ∧
    Must g work (Over g) c := by
  obtain ⟨hsound, hle⟩ := (sound_start cancelled world).after h
  refine ⟨hsound.exists_step work, ?_, hsound.must_come_back work, hsound.must_end work⟩
  have hstart : (start cancelled world : Crew σ ε).remaining g ≤ 12 * g.size + g.concurrency + 10 := by
    have hcaller := Bool.toNat_le (!cancelled)
    simp only [remaining, start, Run.remaining, Run.start, Run.queuedIn, Run.ahead, List.filterMap_nil, List.length_nil,
      Bool.toNat_true]
    omega
  omega

/-- One worker for two tasks. -/
def twoTasks : TaskGraph := ((TaskGraph.empty 1).add 1 []).add 2 []

/-- The worker takes the first task while the coordinator hands over both. -/
def firstTurns : List Turn :=
  [.run .coordinate, .run .coordinate, .run .coordinate, .run .take, .run (.launch 0), .run .coordinate,
    .run .coordinate, .run .coordinate]

/-- The worker holds one task, the other one fills the queue, and the coordinator waits. -/
theorem progress_of_full :
    ∃ c : Crew Unit Empty, (start false ()).after twoTasks Run.succeeds firstTurns = some c ∧
      c.run.queue = [2] ∧ c.run.working.map Prod.fst = [1] ∧ c.run.coordinate twoTasks = none ∧
      (∃ turn c', turn ≠ .run .cancel ∧ c.step twoTasks Run.succeeds turn = some c') ∧
      Must twoTasks Run.succeeds (fun c' => c'.run.done ≠ []) c ∧ Must twoTasks Run.succeeds (Over twoTasks) c := by
  obtain ⟨c, hc⟩ : ∃ c : Crew Unit Empty, (start false ()).after twoTasks Run.succeeds firstTurns = some c := ⟨_, rfl⟩
  obtain ⟨hgoes, -, hback, hend⟩ := progress hc
  cases hc
  exact ⟨_, rfl, rfl, rfl, rfl, hgoes fun hover => absurd hover.2 (by decide), hback rfl rfl, hend⟩

end Crew
end Bundler
