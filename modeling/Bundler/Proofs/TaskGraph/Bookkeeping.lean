import Bundler.Proofs.TaskGraph.Drain
import Bundler.Proofs.TaskGraph.Replay
/-!
# The coordinator's books

The coordinator does not see where a task is: it only remembers which tasks it has handed over and which of them have
come back. `bookkeeping` says that its memory is right in every state that a run reaches. What is in the queue, with the
workers or on its way back is held in one place and once, and it is what the coordinator takes for handed over, but for
the task that it is taking note of. So a task that it waits for does come back, and none is handed over twice.
-/

namespace Bundler.Run

variable {σ ε : Type} {g : TaskGraph} {work : Work σ ε} {s t : Run σ ε}

namespace Accounts

variable (h : s.Accounts g)
include h

theorem held_nodup : s.held.Nodup :=
  (h.queued_perm.nodup_iff.1 h.nodup).of_append_left

theorem known_nodup : (s.inFlight ++ s.completed).Nodup := by
  have hknown := h.known.nodup_iff.1 h.nodup
  rw [List.append_assoc] at hknown
  exact hknown.of_append_right

end Accounts

/-! ## Who tells the tasks to stop -/

/-- The tasks are told to stop with an error, or where the coordinator finds before it primes that the caller has
cancelled. -/
theorem Step.token_cases {m : Move} (h : Step g work s m t) (ht : t.token = true) :
    (s.token = true ∧ t.error = s.error) ∨ t.error.isSome = true ∨ (s.phase = .entering ∧ s.caller = true) := by
  cases h with
  | decline phase _ caller => exact .inr (.inr ⟨phase, caller⟩)
  | settle =>
    rw [token_settle] at ht
    exact .inl ⟨ht, error_settle ..⟩
  | receive id r rest =>
    rcases r with f | ⟨⟩
    · exact .inr (.inl (by simp))
    · rw [token_receive_ok] at ht
      exact .inl ⟨ht, error_receive_ok ..⟩
  | observe => exact .inr (.inl (by simp [fail]))
  | _ => exact .inl ⟨ht, rfl⟩

theorem Reaches.token_cases (h : Reaches g work s t) (hs : s.token = false) (ht : t.token = true) :
    t.error.isSome = true ∨ CancelledEarly g work s t := by
  induction h with
  | refl => rw [hs] at ht; cases ht
  | step m before made ih =>
    rcases (step_of_move made).token_cases ht with ⟨hbefore, herror⟩ | herror | ⟨phase, caller⟩
    · rcases ih hbefore with hsome | ⟨u, hu, phase, caller, hafter⟩
      · exact .inl (herror ▸ hsome)
      · exact .inr ⟨u, hu, phase, caller, .step m hafter made⟩
    · exact .inl herror
    · exact .inr ⟨_, before, phase, caller, .step m (.refl _) made⟩

/-! ## All of it -/

/-- Wherever a run comes to, each task that is on its way is in one place and there once, and the coordinator takes the
same tasks for handed over, up to the one that it is taking note of; those and the ones that have come back are
different tasks of the graph; the queue keeps its bound; and the tasks are told to stop only where an error or the
cancellation was noted, or where the caller had cancelled before the first task was handed over. -/
theorem bookkeeping {cancelled : Bool} {world : σ} (h : Reaches g work (start cancelled world) s) :
    s.held.Nodup ∧ s.held.Perm (s.noting ++ s.inFlight) ∧
    (s.inFlight ++ s.completed).Nodup ∧ (∀ id ∈ s.inFlight ++ s.completed, id ∈ g.ids) ∧
    s.queue.length ≤ g.concurrency ∧
    (s.token = true → s.error.isSome = true ∨ CancelledEarly g work (start cancelled world) s) := by
  have accounts := (h.sound (sound_start cancelled world)).toAccounts
  refine ⟨accounts.held_nodup, accounts.held_perm, accounts.known_nodup, fun id hid => ?_, accounts.room,
    h.token_cases rfl⟩
  apply accounts.mem_ids_of_known
  rw [List.append_assoc]
  exact List.mem_append_right _ hid

/-- Task `1` has failed, a worker has taken `2`, and `4` was put into the queue. -/
def halfway : List Move :=
  [.coordinate, .coordinate, .coordinate, .take, .launch 0, .finish 0, .coordinate, .coordinate, .take, .coordinate]

/-- Each of the three places has a task, and the one in the queue is not noted yet. Once the failure of `1` is received,
the tasks are told to stop. -/
theorem bookkeeping_halfway :
    ∃ s t : Run Unit String, Reaches threeRoots failsAt1 (start false ()) s ∧
      s.held = [4, 2, 1] ∧ s.noting = [4] ∧ s.held.Nodup ∧ s.held.Perm ([4] ++ [2, 1]) ∧ s.queue.length ≤ 2 ∧
      Reaches threeRoots failsAt1 s t ∧ t.token = true ∧ t.error = some (.task 1 (.error "lost")) ∧
      t.held.Perm [4, 2] ∧ (t.inFlight ++ t.completed).Nodup ∧
      (t.error.isSome = true ∨ CancelledEarly threeRoots failsAt1 (start false ()) t) := by
  obtain ⟨s, hs⟩ : ∃ s : Run Unit String,
      halfway.foldlM (move threeRoots failsAt1) (start false ()) = some s := ⟨_, rfl⟩
  obtain ⟨t, ht⟩ : ∃ t : Run Unit String,
      [Move.coordinate, .coordinate, .coordinate].foldlM (move threeRoots failsAt1) s = some t := by
    cases hs
    exact ⟨_, rfl⟩
  have hfirst := reaches_of_foldlM hs
  have hthen := reaches_of_foldlM ht
  obtain ⟨hnodup, hperm, -, -, hroom, -⟩ := bookkeeping hfirst
  obtain ⟨-, hperm', hknown, -, -, htoken⟩ := bookkeeping (hfirst.trans hthen)
  cases hs
  cases ht
  exact ⟨_, _, hfirst, rfl, rfl, hnodup, hperm, hroom, hthen, rfl, rfl, hperm', hknown, htoken rfl⟩

end Bundler.Run
