import Bundler.Proofs.TaskGraph.Invariant
/-!
# Runs come to an end

Until the coordinator has returned, somebody can always make a step (`Sound.exists_move`), and every
step brings the run nearer to its end by what is done in it (`Sound.operations_le`). So whoever's
turn it is, every run returns sooner or later (`Sound.inevitably_returns`).
-/

namespace Bundler.Run

variable {σ ε : Type} {g : TaskGraph} {work : Work σ ε} {s t : Run σ ε}

/-- Whether the coordinator has returned. -/
def Returned (s : Run σ ε) : Prop := ∃ r, s.phase = .returned r

/-- A step that changes the run: a caller that has cancelled may cancel again, to no effect. -/
def Advances (g : TaskGraph) (work : Work σ ε) (s t : Run σ ε) : Prop :=
  ∃ m, s.move g work m = some t ∧ (m = .cancel → s.caller = false)

/-- Whoever's turn it is, sooner or later `P` holds: it holds now, or the run goes on by itself and it
does so after every step that can be made. -/
inductive Inevitably (g : TaskGraph) (work : Work σ ε) (P : Run σ ε → Prop) : Run σ ε → Prop where
  | now {s : Run σ ε} (holds : P s) : Inevitably g work P s
  | later {s : Run σ ε} (goesOn : ∃ m t, m ≠ .cancel ∧ s.move g work m = some t)
    (always : ∀ t, Advances g work s t → Inevitably g work P t) : Inevitably g work P s

/-! ## Every step counts -/

/-- How many steps the coordinator makes at most before it waits or is blocked. -/
def ahead : Phase ε → Nat
  | .entering | .recording .. => 3
  | .feeding .. => 2
  | .waiting => 1
  | .returned _ => 0

/-- More operations than are left. Of the tasks, those that were not queued yet count most, and the further
a task has come, the less it counts. -/
def remaining (g : TaskGraph) (s : Run σ ε) : Nat :=
  8 * (g.size - (queuedIn s.history).length) + 6 * s.queue.length + 5 * s.taken.length + 4 * s.working.length +
    2 * s.done.length + ahead s.phase + s.watching.toNat + (!s.caller).toNat

/-- How often channels are used and tasks start and end in a move. A worker that finishes a task ends it and sends
its result. That the caller cancels is no part of the run. -/
def Move.operations : Move → Nat
  | .finish _ => 2
  | .coordinate | .observe | .take | .launch _ => 1
  | .cancel => 0

theorem Move.operations_pos {m : Move} (hm : m ≠ .cancel) : 0 < m.operations := by
  cases m with
  | cancel => exact absurd rfl hm
  | finish => exact Nat.two_pos
  | _ => exact Nat.one_pos

theorem Accounts.length_queued_le (h : s.Accounts g) : (queuedIn s.history).length ≤ g.size := by
  have sub : (queuedIn s.history).Subperm g.ids :=
    h.nodup.subperm fun _ hid => h.causal.mem_ids_of_queued (mem_queuedIn.1 hid)
  simpa [TaskGraph.size, TaskGraph.ids] using sub.length_le

/-- Settling leaves all but the phase as it is, and the coordinator with at most one more step. -/
theorem remaining_settle (blocking sent : Bool) {rest : List TaskId} (phase : s.phase = .feeding blocking rest sent) :
    (s.settle g blocking sent).remaining g < s.remaining g := by
  unfold Run.settle answer
  split <;> simp only [remaining, phase, ahead] <;> omega

/-- Receiving takes one result off those on their way back. -/
theorem remaining_receive {id : TaskId} {r : TaskResult ε} {rest : List (TaskId × TaskResult ε)}
    (phase : s.phase = .waiting) (front : s.done = (id, r) :: rest) :
    ({ s with done := rest }.receive g id r).remaining g < s.remaining g := by
  have hq : queuedIn (.received id r :: s.history) = queuedIn s.history := rfl
  have hd : s.done.length = rest.length + 1 := by rw [front, List.length_cons]
  unfold Run.receive
  rcases r with f | ⟨⟩ <;> dsimp only <;> split <;>
    simp only [remaining, complete, fail, phase, ahead, hq, hd] <;> omega

/-- The operations of a move are taken off those that are left. -/
theorem Sound.operations_le (h : s.Sound g) {m : Move} (hstep : Step g work s m t) :
    m.operations + t.remaining g ≤ s.remaining g := by
  have hle := (h.step hstep).length_queued_le
  cases hstep with
  | leave phase => simp only [remaining, answer, phase, ahead, Move.operations]; omega
  | decline phase => simp only [remaining, answer, phase, ahead, Move.operations]; omega
  | prime phase => simp only [remaining, phase, ahead, Move.operations]; omega
  | settle blocking sent _ phase =>
    have := remaining_settle (g := g) blocking sent phase
    simp only [Move.operations]
    omega
  | send blocking sent id rest phase =>
    have hq : queuedIn (.queued id :: s.history) = id :: queuedIn s.history := rfl
    simp only [remaining, phase, ahead, hq, List.length_cons, List.length_append, List.length_nil,
      Move.operations] at hle ⊢
    omega
  | note _ _ _ phase => simp only [remaining, phase, ahead, Move.operations]; omega
  | conclude phase => simp only [remaining, answer, phase, ahead, Move.operations]; omega
  | receive _ _ _ phase front =>
    have := remaining_receive (g := g) phase front
    simp only [Move.operations]
    omega
  | observe phase watching =>
    have hq : queuedIn (.observed :: s.history) = queuedIn s.history := rfl
    simp only [remaining, fail, hq, watching, Bool.toNat_true, Bool.toNat_false, Move.operations]
    omega
  | take id rest front =>
    simp only [remaining, front, List.length_append, List.length_cons, List.length_nil, Move.operations]
    omega
  | launch i id holds =>
    obtain ⟨hi, -⟩ := List.getElem?_eq_some_iff.1 holds
    have hq : queuedIn (.started id :: s.history) = queuedIn s.history := rfl
    simp only [remaining, hq, List.length_append, List.length_cons, List.length_nil, List.length_eraseIdx, if_pos hi,
      Move.operations]
    omega
  | finish i id r busy =>
    obtain ⟨hi, -⟩ := List.getElem?_eq_some_iff.1 busy
    have hq : queuedIn (.finished id r :: s.history) = queuedIn s.history := rfl
    simp only [remaining, hq, List.length_append, List.length_cons, List.length_nil, List.length_eraseIdx, if_pos hi,
      Move.operations]
    omega
  | cancel =>
    simp only [remaining, Bool.not_true, Bool.toNat_false, Move.operations]
    omega

theorem Sound.remaining_lt (h : s.Sound g) (made : Advances g work s t) : t.remaining g < s.remaining g := by
  obtain ⟨m, hmove, hcancel⟩ := made
  by_cases hm : m = .cancel
  · subst hm
    cases hmove
    simp only [remaining, hcancel rfl, Bool.not_true, Bool.not_false, Bool.toNat_true, Bool.toNat_false]
    omega
  · have hle := h.operations_le (step_of_move hmove)
    have hpos := Move.operations_pos hm
    omega

/-! ## Somebody can always go on -/

theorem exists_move_of_isSome (m : Move) (hm : m ≠ .cancel) (h : (s.move g work m).isSome) :
    ∃ m t, m ≠ .cancel ∧ s.move g work m = some t := by
  obtain ⟨t, ht⟩ := Option.isSome_iff_exists.1 h
  exact ⟨m, t, hm, ht⟩

/-- Where a task waits for a worker or is held by one, a worker can make a step. -/
theorem exists_move_of_busy (work : Work σ ε) (busy : 0 < s.queue.length + s.taken.length + s.working.length) :
    ∃ m t, m ≠ .cancel ∧ s.move g work m = some t := by
  cases hw : s.working with
  | cons p rest => exact exists_move_of_isSome (.finish 0) (by decide) (by simp [move, finish, hw])
  | nil =>
    cases ht : s.taken with
    | cons id rest => exact exists_move_of_isSome (.launch 0) (by decide) (by simp [move, launch, ht])
    | nil =>
      cases hq : s.queue with
      | nil => simp [hw, ht, hq] at busy
      | cons id rest =>
        exact exists_move_of_isSome .take (by decide) (by simp [move, Run.take, hq, ht, hw, g.concurrency_pos])

/-- Until the coordinator has returned, it or a worker can make a step. -/
theorem Sound.exists_move (h : s.Sound g) (work : Work σ ε) (hr : ¬ s.Returned) :
    ∃ m t, m ≠ .cancel ∧ s.move g work m = some t := by
  have coordinator (hc : (s.coordinate g).isSome) : ∃ m t, m ≠ .cancel ∧ s.move g work m = some t :=
    exists_move_of_isSome .coordinate (by decide) hc
  cases phase : s.phase with
  | entering =>
    refine coordinator ?_
    unfold coordinate
    rw [phase]
    dsimp only
    split
    · rfl
    · split <;> rfl
  | recording => exact coordinator (by simp [coordinate, phase])
  | returned r => exact absurd ⟨r, phase⟩ hr
  | feeding blocking rest sent =>
    cases rest with
    | nil => exact coordinator (by simp [coordinate, phase])
    | cons id rest =>
      by_cases room : s.queue.length < g.concurrency
      · exact coordinator (by simp [coordinate, phase, room])
      · cases blocking with
        | false => exact coordinator (by simp [coordinate, phase, room])
        | true =>
          -- the queue is full, so it is not empty
          have := g.concurrency_pos
          exact exists_move_of_busy work (by omega)
  | waiting =>
    by_cases fin : s.finished g = true ∧ s.inFlight = []
    · exact coordinator (by simp [coordinate, phase, fin])
    · cases hd : s.done with
      | cons p rest =>
        refine coordinator ?_
        simp only [coordinate, phase, hd]
        split <;> rfl
      | nil =>
        have hp := h.phase
        simp only [PhaseSound, phase] at hp
        have hflight : 0 < s.inFlight.length := by
          rw [List.length_pos_iff]
          rcases hp with hfin | hne
          · exact fun hnil => fin ⟨hfin, hnil⟩
          · exact hne
        have hlen := h.length_held
        rw [hd, List.length_nil] at hlen
        exact exists_move_of_busy work (by omega)

/-- Every run returns, whoever's turn it is. -/
theorem Sound.inevitably_returns (h : s.Sound g) (work : Work σ ε) : Inevitably g work Returned s := by
  induction hn : s.remaining g using Nat.strongRecOn generalizing s with
  | ind n ih =>
    by_cases hr : s.Returned
    · exact .now hr
    · refine .later (h.exists_move work hr) fun t made => ?_
      have hlt := hn ▸ h.remaining_lt made
      obtain ⟨m, hmove, -⟩ := made
      exact ih _ hlt (h.step (step_of_move hmove)) rfl

end Bundler.Run
