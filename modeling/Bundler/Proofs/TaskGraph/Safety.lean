import Bundler.Proofs.TaskGraph.Invariant
/-!
# What a run starts

A run starts each task at most once, and only after all that the task depends on has finished well
(`starts_in_order`). So what depends on a task that fails or panics is never started. This holds
wherever a run comes to, whoever's turn it is at each step, whatever the tasks do, and whenever the
caller cancels. What the history says of the end of a task is what the task came to where it was
started (`Reaches.finished_eq`).
-/

namespace Bundler.Run

open Relation

variable {σ ε : Type} {g : TaskGraph} {work : Work σ ε} {s t t' u : Run σ ε}

theorem Reaches.trans (h : Reaches g work s t) (h' : Reaches g work t u) : Reaches g work s u := by
  induction h' with
  | refl => exact h
  | step m _ made ih => exact .step m ih made

theorem reaches_of_foldlM {moves : List Move} (h : moves.foldlM (move g work) s = some t) : Reaches g work s t := by
  induction moves generalizing s with
  | nil => cases h; exact .refl _
  | cons m rest ih =>
    rw [List.foldlM_cons] at h
    obtain ⟨next, made, hrest⟩ := Option.bind_eq_some_iff.1 h
    exact (Reaches.step m (.refl s) made).trans (ih hrest)

theorem reaches_continue (g : TaskGraph) (work : Work σ ε) (cancels : Run σ ε → Bool) (n : Nat) (s : Run σ ε) :
    Reaches g work s (continue_ g work cancels n s) := by
  induction n generalizing s with
  | zero => exact .refl s
  | succ n ih =>
    unfold continue_
    split
    next => exact .refl s
    next made => exact (Reaches.step _ (.refl s) made).trans (ih _)

/-- The run that makes its choices itself is one of those that can happen. -/
theorem reaches_solve (g : TaskGraph) (work : Work σ ε) (cancels : Run σ ε → Bool) (cancelled : Bool) (world : σ) :
    Reaches g work (start cancelled world) (solve g work cancels cancelled world) :=
  reaches_continue g work cancels _ _

/-- A task ends at most once, and so in at most one way. -/
theorem Accounts.finished_unique (h : s.Accounts g) {id : TaskId} {r r' : TaskResult ε}
    (hr : .finished id r ∈ s.history) (hr' : .finished id r' ∈ s.history) : r = r' := by
  have := List.inj_on_of_nodup_map h.finished_nodup (mem_finishedIn.2 hr) (mem_finishedIn.2 hr') rfl
  simpa using this

theorem Accounts.startedIds_nodup (h : s.Accounts g) : s.startedIds.Nodup :=
  s.startedIds_perm.nodup_iff.2 h.started_nodup

/-! ## Who cancels -/

/-- Only the caller cancels. -/
theorem Step.caller_eq {m : Move} (h : Step g work s m t) (hm : m ≠ .cancel) : t.caller = s.caller := by
  cases h with
  | settle => rw [caller_settle]
  | receive => rw [caller_receive]
  | cancel => exact absurd rfl hm
  | _ => rfl

theorem Step.caller {m : Move} (h : Step g work s m t) (ht : t.caller = false) : s.caller = false := by
  by_cases hm : m = .cancel
  · subst hm
    cases h
    cases ht
  · rw [← h.caller_eq hm]
    exact ht

theorem Reaches.caller (h : Reaches g work s t) (ht : t.caller = false) : s.caller = false := by
  induction h with
  | refl => exact ht
  | step _ _ made ih => exact ih ((step_of_move made).caller ht)

/-! ## What a task comes to -/

/-- The run comes by `u` on its way from `s` to `t`, and there a worker begins the task. -/
def StartedAt (g : TaskGraph) (work : Work σ ε) (s t : Run σ ε) (id : TaskId) (u : Run σ ε) : Prop :=
  ∃ v i, Reaches g work s u ∧ u.taken[i]? = some id ∧ u.move g work (.launch i) = some v ∧ Reaches g work v t

theorem StartedAt.step {id : TaskId} {m : Move} (h : StartedAt g work s t id u) (made : t.move g work m = some t') :
    StartedAt g work s t' id u := by
  obtain ⟨v, i, hu, holds, hlaunch, hafter⟩ := h
  exact ⟨v, i, hu, holds, hlaunch, .step m hafter made⟩

/-- A step brings no results but that of the task that it starts. -/
theorem Step.result_cases {m : Move} (h : Step g work s m t) {x : TaskId × TaskResult ε}
    (hx : x ∈ t.working ++ finishedIn t.history) :
    x ∈ s.working ++ finishedIn s.history ∨
      ∃ i, m = .launch i ∧ s.taken[i]? = some x.1 ∧ x.2 = (work s.token x.1 s.world).2 := by
  cases h with
  | settle => exact .inl (by rwa [working_settle, history_settle] at hx)
  | receive =>
    rw [working_receive, history_receive] at hx
    exact .inl hx
  | launch i id holds =>
    rcases List.mem_append.1 hx with hworking | hfinished
    · rcases List.mem_append.1 hworking with hbefore | hnew
      · exact .inl (List.mem_append_left _ hbefore)
      · rw [List.mem_singleton.1 hnew]
        exact .inr ⟨i, rfl, holds, rfl⟩
    · exact .inl (List.mem_append_right _ hfinished)
  | finish i id r busy =>
    rcases List.mem_append.1 hx with hworking | hfinished
    · exact .inl (List.mem_append_left _ (List.mem_of_mem_eraseIdx hworking))
    · rcases List.mem_cons.1 hfinished with rfl | hbefore
      · exact .inl (List.mem_append_left _ (List.mem_of_getElem? busy))
      · exact .inl (List.mem_append_right _ hbefore)
  | _ => exact .inl hx

theorem Reaches.result_eq {cancelled : Bool} {world : σ} (h : Reaches g work (start cancelled world) s)
    {x : TaskId × TaskResult ε} (hx : x ∈ s.working ++ finishedIn s.history) :
    ∃ u, StartedAt g work (start cancelled world) s x.1 u ∧ x.2 = (work u.token x.1 u.world).2 := by
  induction h with
  | refl => cases hx
  | step m before made ih =>
    rcases (step_of_move made).result_cases hx with hbefore | ⟨i, rfl, holds, hresult⟩
    · obtain ⟨u, hstarted, hresult⟩ := ih hbefore
      exact ⟨u, hstarted.step made, hresult⟩
    · exact ⟨_, ⟨_, i, before, holds, made, .refl _⟩, hresult⟩

/-- A task ends as it does when it is started: with what it makes of the world that it finds then, told to stop or
not. -/
theorem Reaches.finished_eq {cancelled : Bool} {world : σ} (h : Reaches g work (start cancelled world) s)
    {id : TaskId} {r : TaskResult ε} (hf : .finished id r ∈ s.history) :
    ∃ u, StartedAt g work (start cancelled world) s id u ∧ r = (work u.token id u.world).2 :=
  h.result_eq (List.mem_append_right _ (mem_finishedIn.2 hf))

/-! ## The order of starts -/

/-- Each task starts at most once; only tasks of the graph start; each of them starts after all its
dependencies in the graph have finished well; and what depends, directly or through other tasks, on a
task that failed never starts. -/
theorem starts_in_order {cancelled : Bool} {world : σ} (h : Reaches g work (start cancelled world) s) :
    s.startedIds.Nodup ∧
    (∀ id ∈ s.startedIds, id ∈ g.ids) ∧
    (∀ after before id d, s.history = after ++ .started id :: before → g.DependsOn id d →
      .finished d (.ok ()) ∈ before) ∧
    ∀ id d f, .finished d (.error f) ∈ s.history → TransGen g.DependsOn id d → id ∉ s.startedIds := by
  have sound := h.sound (sound_start cancelled world)
  have causal := sound.causal
  refine ⟨sound.startedIds_nodup, ?_, ?_, ?_⟩
  · intro id hid
    exact causal.mem_ids_of_queued (causal.queued_of_started (mem_startedIds.1 hid))
  · intro after before id d hsplit hd
    rw [hsplit] at causal
    exact causal.drop.finished_of_started hd
  · intro id d f hfail hd hid
    have hok := causal.finished_of_transGen (mem_startedIds.1 hid) hd
    cases sound.finished_unique hfail hok

/-- Four tasks for two workers: `2` waits for `1` and `3`, and `4` for `2`. -/
def diamondTail : TaskGraph := ((((TaskGraph.empty 2).add 1 []).add 2 [1, 3]).add 3 []).add 4 [2]

/-- Task `3` panics, the others go well. -/
def panicsAt3 : Work Unit Empty := fun _ id world =>
  (world, if id = 3 then .error (.panic (.text "boom")) else .ok ())

/-- Where `3` panics, `2` and `4` are not started. -/
theorem starts_in_order_of_panic :
    ∃ s : Run Unit Empty, Reaches diamondTail panicsAt3 (start false ()) s ∧
      .finished 3 (.error (.panic (.text "boom"))) ∈ s.history ∧ 2 ∉ s.startedIds ∧ 4 ∉ s.startedIds := by
  have reached := reaches_solve diamondTail panicsAt3 (fun _ => false) false ()
  have failed : .finished 3 (.error (.panic (.text "boom"))) ∈
      (solve diamondTail panicsAt3 (fun _ => false) false ()).history := by
    have hall : finishedIn (solve diamondTail panicsAt3 (fun _ => false) false ()).history =
        [(3, .error (.panic (.text "boom"))), (1, .ok ())] := rfl
    exact mem_finishedIn.1 (hall ▸ List.mem_cons_self)
  have h23 : TransGen diamondTail.DependsOn 2 3 := .single ⟨by decide, [1, 3], by decide, by decide⟩
  have h43 : TransGen diamondTail.DependsOn 4 3 := .head ⟨by decide, [2], by decide, by decide⟩ h23
  have never := (starts_in_order reached).2.2.2
  exact ⟨_, reached, failed, never 2 3 _ failed h23, never 4 3 _ failed h43⟩

end Bundler.Run
