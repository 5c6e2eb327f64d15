import Bundler.Proofs.TaskGraph.Progress
import Bundler.Proofs.TaskGraph.Safety
/-!
# What a run answers

A run returns, and its answer tells what was run: `.ok` that every task was, `.unsolvable pending`
that every task was but those from which dependencies lead into a cycle (`outcome`). While no task
fails and the caller does not cancel, the graph alone decides which of the two it is.
-/

namespace Bundler

open Relation

/-- No task depends on itself, directly or through other tasks. -/
def TaskGraph.Acyclic (g : TaskGraph) : Prop := ∀ id, ¬ TransGen g.DependsOn id id

theorem TaskGraph.acyclic_iff {g : TaskGraph} : g.Acyclic ↔ ∀ id, ¬ g.ReachesCycle id := by
  constructor
  · rintro hg id ⟨b, -, hb⟩
    exact hg b hb
  · exact fun hg id hid => hg id ⟨id, .refl, hid⟩

namespace Run

variable {σ ε : Type} {g : TaskGraph} {work : Work σ ε} {s t : Run σ ε}

/-- Exactly these tasks were started, once each, and all of them have finished well. -/
def RanWell (s : Run σ ε) (ids : List TaskId) : Prop :=
  s.startedIds = ids ∧ (finishedIn s.history).Perm (ids.map fun id => (id, .ok ()))

/-- No task that has finished has failed. -/
def NoFailure (s : Run σ ε) : Prop := ∀ id f, .finished id (.error f) ∉ s.history

/-! ## When nothing is under way -/

namespace Accounts

variable (h : s.Accounts g)
include h

/-- When the coordinator waits for no task, every task that was started has come back. -/
theorem received_of_idle (hn : s.noting = []) (hi : s.inFlight = []) :
    (startedIn s.history).Perm s.completed ∧ finishedIn s.history = receivedIn s.history := by
  have hlen := h.length_held
  rw [hn, hi, List.length_nil] at hlen
  have hw : s.working = [] := List.length_eq_zero_iff.1 (by omega)
  have hd : s.done = [] := List.length_eq_zero_iff.1 (by omega)
  have hs := h.started
  have hf := h.finished
  rw [hd, List.reverse_nil, List.nil_append] at hf
  rw [hw, hf, ← h.completed] at hs
  exact ⟨hs, hf⟩

theorem received_results (he : s.error = none) : receivedIn s.history = s.completed.map fun id => (id, .ok ()) := by
  rw [h.completed, List.map_map]
  refine (List.map_id (receivedIn s.history)).symm.trans (List.map_congr_left fun (id, r) hr => ?_)
  cases r with
  | ok _ => rfl
  | error f => exact absurd (mem_receivedIn.1 hr) ((trouble_eq_none_iff.1 (h.error ▸ he)).2 id f)

/-- The tasks that came back, in ascending order. -/
theorem completed_perm : s.completed.Perm (g.ids.filter (· ∈ s.completed)) := by
  refine (List.perm_ext_iff_of_nodup h.completed_nodup (g.ids_nodup.filter _)).2 fun id => ?_
  rw [List.mem_filter, decide_eq_true_eq]
  exact ⟨fun hid => ⟨h.mem_ids_of_completed hid, hid⟩, fun hid => hid.2⟩

/-- When nothing is under way and nothing went wrong, just the tasks that came back were run. -/
theorem ranWell (hn : s.noting = []) (hi : s.inFlight = []) (he : s.error = none) :
    s.RanWell (g.ids.filter (· ∈ s.completed)) := by
  obtain ⟨hs, hf⟩ := h.received_of_idle hn hi
  have hids := h.completed_perm
  constructor
  · have hsorted : (g.ids.filter (· ∈ s.completed)).Pairwise (· ≤ ·) :=
      (g.ascending.imp Nat.le_of_lt).sublist List.filter_sublist
    refine ((s.startedIds_perm.trans hs).trans hids).eq_of_pairwise' ?_ hsorted
    exact List.pairwise_mergeSort' (· ≤ ·) (startedIn s.history)
  · rw [hf, h.received_results he]
    exact hids.map _

theorem noFailure (hn : s.noting = []) (hi : s.inFlight = []) (he : s.error = none) : s.NoFailure := by
  intro id f hfail
  rw [← mem_finishedIn, (h.received_of_idle hn hi).2, h.received_results he, List.mem_map] at hfail
  obtain ⟨_, -, heq⟩ := hfail
  cases heq

end Accounts

/-! ## The answer -/

namespace Sound

variable (h : s.Sound g)
include h

/-- What holds of a run that has returned. -/
theorem concluded {r : Except (SolveError ε) Unit} (phase : s.phase = .returned r) :
    s.noting = [] ∧ s.inFlight = [] ∧ s.Concluded g r := by
  have hp := h.phase
  simp only [PhaseSound, phase] at hp
  exact ⟨by simp [noting, phase], hp⟩

/-- Nothing is left on its way then. -/
theorem idle {r : Except (SolveError ε) Unit} (phase : s.phase = .returned r) :
    s.queue = [] ∧ s.taken = [] ∧ s.working = [] ∧ s.done = [] := by
  obtain ⟨hn, hi, -⟩ := h.concluded phase
  have hlen := h.length_held
  rw [hn, hi, List.length_nil] at hlen
  simp only [← List.length_eq_zero_iff]
  omega

/-- A task that has come back leads into no cycle. -/
theorem not_reachesCycle {id : TaskId} (hid : id ∈ s.completed) : ¬ g.ReachesCycle id := by
  obtain ⟨r, hr⟩ := h.mem_completed.1 hid
  exact h.causal.not_reachesCycle (h.causal.started_of_finished (h.causal.finished_of_received hr))

/-- When nothing is under way and no task can be handed over, just those tasks have not come back from
which dependencies lead into a cycle: each of them waits for another one. -/
theorem mem_pending_iff (hi : s.inFlight = []) (hr : s.ready g = []) {id : TaskId} :
    id ∈ s.pending g ↔ g.ReachesCycle id := by
  have mem (a : TaskId) : a ∈ s.pending g ↔ a ∈ g.ids ∧ a ∉ s.completed := by simp [pending]
  constructor
  · refine TaskGraph.reachesCycle_of_closed (P := (· ∈ s.pending g)) fun a ha => ?_
    obtain ⟨ha, hnew⟩ := (mem a).1 ha
    obtain ⟨⟨a, deps⟩, htask, rfl⟩ := List.mem_map.1 ha
    -- the task was not started, so a dependency within the graph has not come back
    have hnot : ¬ s.isReady g a deps = true := by
      rw [ready, List.map_eq_nil_iff, List.filter_eq_nil_iff] at hr
      exact hr _ htask
    obtain ⟨d, hd, hback, htask'⟩ : ∃ d ∈ deps, d ∉ s.completed ∧ d ∈ g.ids := by
      simpa [isReady, hi, hnew] using hnot
    exact ⟨ha, d, (mem d).2 ⟨htask', hback⟩, htask', deps, htask, hd⟩
  · exact fun hcycle => (mem id).2 ⟨hcycle.mem_ids, fun hid => h.not_reachesCycle hid hcycle⟩

theorem ok_spec (phase : s.phase = .returned (.ok ())) : s.RanWell g.ids ∧ g.Acyclic := by
  obtain ⟨hn, hi, he, hle⟩ := h.concluded phase
  have hall := h.size_le_iff.1 hle
  have hran := h.ranWell hn hi he
  rw [List.filter_eq_self.2 (by simpa using hall)] at hran
  exact ⟨hran, TaskGraph.acyclic_iff.2 fun id hcycle => h.not_reachesCycle (hall id hcycle.mem_ids) hcycle⟩

theorem unsolvable_spec {pending : List TaskId} (phase : s.phase = .returned (.error (.unsolvable pending))) :
    s.NoFailure ∧ pending.Pairwise (· < ·) ∧ (∀ id, id ∈ pending ↔ g.ReachesCycle id) ∧
      s.RanWell (g.ids.filter (· ∉ pending)) ∧ ¬ g.Acyclic := by
  obtain ⟨hn, hi, he, hlt, hr, rfl⟩ := h.concluded phase
  have hcycle (id : TaskId) : id ∈ s.pending g ↔ g.ReachesCycle id := h.mem_pending_iff hi hr
  refine ⟨h.noFailure hn hi he, g.ascending.sublist List.filter_sublist, hcycle, ?_, ?_⟩
  · have hids : g.ids.filter (· ∉ s.pending g) = g.ids.filter (· ∈ s.completed) := by
      refine List.filter_congr fun id hid => decide_eq_decide.2 ?_
      simp [pending, hid]
    rw [hids]
    exact h.ranWell hn hi he
  · intro hg
    refine absurd (h.size_le_iff.2 fun id hid => ?_) (not_le.2 hlt)
    by_contra hback
    exact TaskGraph.acyclic_iff.1 hg id ((hcycle id).1 (by simp [pending, hid, hback]))

/-- Without a failure and without the caller's cancellation, there is no third answer. -/
theorem answer_cases {r : Except (SolveError ε) Unit} (phase : s.phase = .returned r) (hc : s.caller = false)
    (hf : s.NoFailure) : r = .ok () ∨ ∃ pending, r = .error (.unsolvable pending) := by
  obtain ⟨-, -, hr⟩ := h.concluded phase
  rcases r with (pending | _ | ⟨id, f⟩) | ⟨⟩
  · exact .inr ⟨pending, rfl⟩
  · exact absurd (hc.symm.trans hr) Bool.false_ne_true
  · exact absurd (h.causal.finished_of_received hr) (hf id f)
  · exact .inl rfl

end Sound

/-- Wherever a run has come to, it will return, whoever's turn it is. If it has returned `.ok`, every task
ran once and well. If it has returned `.unsolvable pending`, no task failed, `pending` lists in ascending
order the tasks from which dependencies lead into a cycle, and every other task ran once and well. If no
task failed and the caller never cancelled, it has returned `.ok` when the graph is acyclic and
`.unsolvable` when it is not. -/
theorem outcome {cancelled : Bool} {world : σ} (h : Reaches g work (start cancelled world) s) :
    Inevitably g work Returned s ∧
    (s.phase = .returned (.ok ()) → s.RanWell g.ids) ∧
    (∀ pending, s.phase = .returned (.error (.unsolvable pending)) →
      s.NoFailure ∧ pending.Pairwise (· < ·) ∧ (∀ id, id ∈ pending ↔ g.ReachesCycle id) ∧
        s.RanWell (g.ids.filter (· ∉ pending))) ∧
    ∀ r, s.phase = .returned r → s.caller = false → s.NoFailure →
      (g.Acyclic → r = .ok ()) ∧ (¬ g.Acyclic → ∃ pending, r = .error (.unsolvable pending)) := by
  have sound := h.sound (sound_start cancelled world)
  refine ⟨sound.inevitably_returns work, fun phase => (sound.ok_spec phase).1, fun pending phase => ?_,
    fun r phase hc hf => ?_⟩
  · obtain ⟨hf, hp, hcycle, hran, -⟩ := sound.unsolvable_spec phase
    exact ⟨hf, hp, hcycle, hran⟩
  · rcases sound.answer_cases phase hc hf with rfl | ⟨pending, rfl⟩
    · exact ⟨fun _ => rfl, fun hg => absurd (sound.ok_spec phase).2 hg⟩
    · exact ⟨fun hg => absurd hg (sound.unsolvable_spec phase).2.2.2.2, fun _ => ⟨pending, rfl⟩⟩

/-- Two workers for five tasks: `1` and `2` wait for each other, `3` waits for them, `5` waits for `4` and
for a task that was never added. -/
def cycleWithTail : TaskGraph := (((((TaskGraph.empty 2).add 1 [2]).add 2 [1]).add 3 [2]).add 4 []).add 5 [4, 9]

/-- Every task goes well. -/
def succeeds : Work Unit Empty := fun _ _ world => (world, .ok ())

/-- The cycle and the task behind it are pending, the others ran. -/
theorem outcome_of_cycle :
    ∃ s : Run Unit Empty, Reaches cycleWithTail succeeds (start false ()) s ∧
      s.phase = .returned (.error (.unsolvable [1, 2, 3])) ∧ cycleWithTail.ReachesCycle 3 ∧
      ¬ cycleWithTail.ReachesCycle 5 ∧ s.startedIds = [4, 5] := by
  have reached := reaches_solve cycleWithTail succeeds (fun _ => false) false ()
  have phase : (solve cycleWithTail succeeds (fun _ => false) false ()).phase =
      .returned (.error (.unsolvable [1, 2, 3])) := rfl
  obtain ⟨-, -, hcycle, hran, -⟩ := (outcome reached).2.2.1 _ phase
  exact ⟨_, reached, phase, (hcycle 3).1 (by decide), fun h => absurd ((hcycle 5).2 h) (by decide), hran⟩

end Run
end Bundler
