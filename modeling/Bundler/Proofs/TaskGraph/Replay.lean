import Bundler.Proofs.TaskGraph.Outcome
/-!
# The world of a run

Until a run is told to stop, its world is what comes of the started tasks one after the other
(`Reaches.world_eq`). A run that returns `.ok` was never told to stop (`token_of_ok`). Neither is a run of tasks
that all go well, unless its caller cancels (`Reaches.undisturbed`). The run that makes its choices itself
returns (`solve_returns`).
-/

namespace Bundler.Run

variable {σ ε : Type} {g : TaskGraph} {work : Work σ ε} {s t : Run σ ε} {w : σ}

/-- What comes of tasks that run one after the other, the last one of the list first. -/
def replay (work : Work σ ε) (ids : List TaskId) (w : σ) : σ := ids.foldr (fun id w => (work false id w).1) w

@[simp] theorem replay_nil (work : Work σ ε) (w : σ) : replay work [] w = w := rfl

@[simp] theorem replay_cons (work : Work σ ε) (id : TaskId) (ids : List TaskId) (w : σ) :
    replay work (id :: ids) w = (work false id (replay work ids w)).1 := rfl

/-! ## Until the run is told to stop -/

/-- Nothing tells a run to go on after all. -/
theorem Step.token {m : Move} (h : Step g work s m t) (ht : t.token = false) : s.token = false := by
  cases h with
  | decline => cases ht
  | settle => rwa [token_settle] at ht
  | receive id r rest =>
    rcases r with f | ⟨⟩
    · rw [token_receive_error] at ht
      cases ht
    · rwa [token_receive_ok] at ht
  | observe => cases ht
  | _ => exact ht

theorem Reaches.token (h : Reaches g work s t) (ht : t.token = false) : s.token = false := by
  induction h with
  | refl => exact ht
  | step _ _ made ih => exact ih ((step_of_move made).token ht)

/-- Only a task that starts changes the world. -/
theorem Step.world {m : Move} (h : Step g work s m t) (hs : s.token = false)
    (hw : s.world = replay work (startedIn s.history) w) : t.world = replay work (startedIn t.history) w := by
  cases h with
  | settle => rwa [world_settle, history_settle]
  | receive =>
    rw [world_receive, history_receive]
    exact hw
  | launch i id =>
    show (work s.token id s.world).1 = replay work (id :: startedIn s.history) w
    rw [hs, hw, replay_cons]
  | _ => exact hw

/-- Until a run is told to stop, its world is what comes of the started tasks one after the other. -/
theorem Reaches.world_eq {cancelled : Bool} (h : Reaches g work (start cancelled w) s) (ht : s.token = false) :
    s.world = replay work (startedIn s.history) w := by
  induction h with
  | refl => rfl
  | step m _ made ih =>
    have hstep := step_of_move made
    have hs := hstep.token ht
    exact hstep.world hs (ih hs)

/-- Only a task that starts changes the world, so what all tasks keep is kept. -/
theorem Step.forall_world {P : σ → Prop} {m : Move} (h : Step g work s m t) (hs : P s.world)
    (hwork : ∀ cancelled id w, P w → P (work cancelled id w).1) : P t.world := by
  cases h with
  | settle => rwa [world_settle]
  | receive => rwa [world_receive]
  | launch i id => exact hwork s.token id s.world hs
  | _ => exact hs

theorem Reaches.forall_world {P : σ → Prop} (h : Reaches g work s t) (hs : P s.world)
    (hwork : ∀ cancelled id w, P w → P (work cancelled id w).1) : P t.world := by
  induction h with
  | refl => exact hs
  | step _ _ made ih => exact (step_of_move made).forall_world ih hwork

/-- How tasks end that run one after the other, the last one of the list first. -/
def results (work : Work σ ε) : List TaskId → σ → List (TaskId × TaskResult ε)
  | [], _ => []
  | id :: ids, w => (id, (work false id (replay work ids w)).2) :: results work ids w

theorem mem_results {id : TaskId} {before ids : List TaskId} (h : id :: before <:+ ids) :
    (id, (work false id (replay work before w)).2) ∈ results work ids w := by
  induction ids with
  | nil => cases List.suffix_nil.1 h
  | cons first rest ih =>
    rw [results]
    rcases List.suffix_cons_iff.1 h with heq | hsuffix
    · cases heq
      exact List.mem_cons_self
    · exact List.mem_cons_of_mem _ (ih hsuffix)

/-- What workers hold and what has finished are the results of the started tasks. -/
theorem Step.results_perm {m : Move} (h : Step g work s m t) (hs : s.token = false)
    (hw : s.world = replay work (startedIn s.history) w)
    (hr : (results work (startedIn s.history) w).Perm (s.working ++ finishedIn s.history)) :
    (results work (startedIn t.history) w).Perm (t.working ++ finishedIn t.history) := by
  cases h with
  | settle => rwa [working_settle, history_settle]
  | receive =>
    rw [working_receive, history_receive]
    exact hr
  | launch i id =>
    show (results work (id :: startedIn s.history) w).Perm
      ((s.working ++ [(id, (work s.token id s.world).2)]) ++ finishedIn s.history)
    rw [results, hs, hw, List.append_assoc, List.singleton_append]
    exact (hr.cons _).trans List.perm_middle.symm
  | finish i id r busy =>
    show (results work (startedIn s.history) w).Perm (s.working.eraseIdx i ++ (id, r) :: finishedIn s.history)
    obtain ⟨hi, hbusy⟩ := List.getElem?_eq_some_iff.1 busy
    have hperm : ((id, r) :: s.working.eraseIdx i).Perm s.working := by
      rw [← hbusy]
      exact List.getElem_cons_eraseIdx_perm hi
    exact hr.trans ((hperm.symm.append_right _).trans List.perm_middle.symm)
  | _ => exact hr

theorem Reaches.results_perm {cancelled : Bool} (h : Reaches g work (start cancelled w) s) (ht : s.token = false) :
    (results work (startedIn s.history) w).Perm (s.working ++ finishedIn s.history) := by
  induction h with
  | refl => exact .refl _
  | step m before made ih =>
    have hstep := step_of_move made
    have hs := hstep.token ht
    exact hstep.results_perm hs (before.world_eq hs) (ih hs)

/-! ## Tasks that are started -/

/-- What happened stays what happened. -/
theorem Step.history {m : Move} (h : Step g work s m t) : s.history <:+ t.history := by
  cases h with
  | settle => rw [history_settle]
  | receive =>
    rw [history_receive]
    exact List.suffix_cons _ _
  | send => exact List.suffix_cons _ _
  | observe => exact List.suffix_cons _ _
  | launch => exact List.suffix_cons _ _
  | finish => exact List.suffix_cons _ _
  | _ => exact List.suffix_rfl

theorem Reaches.history (h : Reaches g work s t) : s.history <:+ t.history := by
  induction h with
  | refl => exact List.suffix_rfl
  | step _ _ made ih => exact ih.trans (step_of_move made).history

/-- A task that is started has started after those that started before. -/
theorem StartedAt.suffix {id : TaskId} {u : Run σ ε} (h : StartedAt g work s t id u) :
    id :: startedIn u.history <:+ startedIn t.history := by
  obtain ⟨v, i, -, holds, made, hafter⟩ := h
  have hsuffix : startedIn v.history <:+ startedIn t.history := hafter.history.filterMap _
  cases step_of_move made with
  | launch i' id' holds' =>
    rw [holds] at holds'
    cases holds'
    exact hsuffix

/-- A task that is taken, and only such a one, can start. -/
theorem Step.started {m : Move} {id : TaskId} (h : Step g work s m t) (ht : .started id ∈ t.history) :
    .started id ∈ s.history ∨ ∃ i, m = .launch i ∧ s.taken[i]? = some id := by
  cases h with
  | settle => exact .inl (by rwa [history_settle] at ht)
  | receive => exact .inl (by simpa using ht)
  | send => exact .inl (by simpa using ht)
  | observe => exact .inl (by simpa [fail] using ht)
  | launch i id' holds =>
    rcases List.mem_cons.1 ht with heq | ht
    · cases heq
      exact .inr ⟨i, rfl, holds⟩
    · exact .inl ht
  | finish => exact .inl (by simpa using ht)
  | _ => exact .inl ht

/-- A task that has started was started on the way. -/
theorem exists_startedAt {cancelled : Bool} {id : TaskId} (h : Reaches g work (start cancelled w) s)
    (hid : .started id ∈ s.history) : ∃ u, StartedAt g work (start cancelled w) s id u := by
  induction h with
  | refl => cases hid
  | step m before made ih =>
    rcases (step_of_move made).started hid with hid | ⟨i, rfl, holds⟩
    · obtain ⟨u, hu⟩ := ih hid
      exact ⟨u, hu.step made⟩
    · exact ⟨_, _, i, before, holds, made, .refl _⟩

/-! ## Runs that are not told to stop -/

/-- A run is told to stop when it notes an error, or before its first step. -/
def Warranted (s : Run σ ε) : Prop :=
  s.token = true → s.error.isSome = true ∨ s.phase = .returned (.error .cancelled)

theorem Warranted.step {m : Move} (hs : s.Warranted) (h : Step g work s m t) : t.Warranted := by
  intro ht
  have before (hp : ∀ r, s.phase ≠ .returned r) (ht : s.token = true) : s.error.isSome = true :=
    (hs ht).resolve_right (hp _)
  cases h with
  | leave phase => exact .inl (before (by simp [phase]) ht)
  | decline => exact .inr rfl
  | prime phase => exact .inl (before (by simp [phase]) ht)
  | settle blocking sent rest phase =>
    rw [token_settle] at ht
    rw [error_settle]
    exact .inl (before (by simp [phase]) ht)
  | send _ _ _ _ phase => exact .inl (before (by simp [phase]) ht)
  | note _ _ _ phase => exact .inl (before (by simp [phase]) ht)
  | conclude phase => exact .inl (before (by simp [phase]) ht)
  | receive id r rest phase =>
    left
    rcases r with f | ⟨⟩
    · simp
    · rw [token_receive_ok] at ht
      rw [error_receive_ok]
      exact before (by simp [phase]) ht
  | observe => exact .inl (by simp [fail])
  | take => exact hs ht
  | launch => exact hs ht
  | finish => exact hs ht
  | cancel => exact hs ht

theorem Reaches.warranted {cancelled : Bool} (h : Reaches g work (start cancelled w) s) : s.Warranted := by
  induction h with
  | refl => exact nofun
  | step _ _ made ih => exact ih.step (step_of_move made)

/-- A run that has returned `.ok` was never told to stop. -/
theorem token_of_ok {cancelled : Bool} (h : Reaches g work (start cancelled w) s)
    (phase : s.phase = .returned (.ok ())) : s.token = false := by
  have sound := h.sound (sound_start cancelled w)
  obtain ⟨-, -, herror, -⟩ := sound.concluded phase
  rw [← Bool.not_eq_true]
  intro ht
  rcases h.warranted ht with hsome | hphase
  · rw [herror] at hsome
    cases hsome
  · rw [phase] at hphase
    cases hphase

/-- Of a run that has returned `.ok` every task has ended well where it ran. -/
theorem ok_of_started {cancelled : Bool} (h : Reaches g work (start cancelled w) s)
    (phase : s.phase = .returned (.ok ())) {id : TaskId} {before : List TaskId}
    (hsuffix : id :: before <:+ startedIn s.history) : (work false id (replay work before w)).2 = .ok () := by
  have sound := h.sound (sound_start cancelled w)
  obtain ⟨⟨-, hfinished⟩, -⟩ := sound.ok_spec phase
  obtain ⟨-, -, hworking, -⟩ := sound.idle phase
  have hmem := (h.results_perm (token_of_ok h phase)).subset (mem_results hsuffix)
  rw [hworking, List.nil_append] at hmem
  obtain ⟨id', -, heq⟩ := List.mem_map.1 (hfinished.subset hmem)
  exact (Prod.mk.inj heq).2.symm

/-- Nobody has told the run to stop, and nothing has gone wrong in it. -/
structure Undisturbed (s : Run σ ε) : Prop where
  token : s.token = false
  working : ∀ x ∈ s.working, x.2 = .ok ()
  finished : s.NoFailure

theorem Undisturbed.step {m : Move} (hs : s.Undisturbed) (sound : s.Sound g) (h : Step g work s m t)
    (hcaller : t.caller = false) (hok : ∀ id ∈ s.taken, (work false id s.world).2 = .ok ()) : t.Undisturbed := by
  have hcaller' := h.caller hcaller
  cases h with
  | leave => exact ⟨hs.token, hs.working, hs.finished⟩
  | decline _ _ caller => exact absurd (hcaller'.symm.trans caller) Bool.false_ne_true
  | prime => exact ⟨hs.token, hs.working, hs.finished⟩
  | settle => exact ⟨by simpa using hs.token, by simpa using hs.working, by simpa [NoFailure] using hs.finished⟩
  | send => exact ⟨hs.token, hs.working, fun id f hf => hs.finished id f (by simpa using hf)⟩
  | note => exact ⟨hs.token, hs.working, hs.finished⟩
  | conclude => exact ⟨hs.token, hs.working, hs.finished⟩
  | receive id r rest _ front =>
    -- what comes back has finished, so it has not failed
    have hr : r = .ok () := by
      rcases r with f | ⟨⟩
      · have hmem : (id, .error f) ∈ finishedIn s.history := by
          rw [sound.finished, front]
          simp
        exact absurd (mem_finishedIn.1 hmem) (hs.finished id f)
      · rfl
    subst hr
    exact ⟨by simpa using hs.token, by simpa using hs.working, by simpa [NoFailure] using hs.finished⟩
  | observe _ _ caller => exact absurd (hcaller'.symm.trans caller) Bool.false_ne_true
  | take => exact ⟨hs.token, hs.working, hs.finished⟩
  | launch i id holds =>
    refine ⟨hs.token, ?_, fun id f hf => hs.finished id f (by simpa using hf)⟩
    intro x hx
    rcases List.mem_append.1 hx with hx | hx
    · exact hs.working x hx
    · rw [List.mem_singleton.1 hx, hs.token]
      exact hok id (List.mem_of_getElem? holds)
  | finish i id r busy =>
    refine ⟨hs.token, fun x hx => hs.working x (List.mem_of_mem_eraseIdx hx), fun id' f hf => ?_⟩
    rcases List.mem_cons.1 hf with heq | hf
    · have hr := hs.working _ (List.mem_of_getElem? busy)
      cases heq
      cases hr
    · exact hs.finished id' f hf
  | cancel => cases hcaller

/-- Unless its caller cancels, a run of tasks that all go well is never told to stop: its world is what comes of
the started tasks one after the other. -/
theorem Reaches.undisturbed (h : Reaches g work (start false w) s) (hcaller : s.caller = false)
    (hok : ∀ id before, (id :: before).Nodup → (∀ x ∈ id :: before, x ∈ g.ids) →
      (work false id (replay work before w)).2 = .ok ()) : s.Undisturbed := by
  induction h with
  | refl => exact ⟨rfl, by simp [start], nofun⟩
  | step m before made ih =>
    have hstep := step_of_move made
    have hs := ih (hstep.caller hcaller)
    have sound := before.sound (sound_start false w)
    refine hs.step sound hstep hcaller fun id htaken => ?_
    rw [before.world_eq hs.token]
    -- what is taken was not started yet
    have hqueued := sound.queued
    refine hok id _ (List.nodup_cons.2 ⟨fun hstarted => ?_, sound.started_nodup⟩) fun x hx => ?_
    · have hnodup := (hqueued.nodup_iff.1 sound.nodup).of_append_right
      exact (List.nodup_append'.1 hnodup).2.2 htaken hstarted
    · apply sound.causal.mem_ids_of_queued
      rw [← mem_queuedIn, hqueued.mem_iff]
      apply List.mem_append_right
      rcases List.mem_cons.1 hx with rfl | hstarted
      · exact List.mem_append_left _ htaken
      · exact List.mem_append_right _ hstarted

/-! ## The run without choices -/

/-- A cancellation is chosen when it is asked for, and once. -/
theorem of_choose_cancel {cancels : Run σ ε → Bool} (h : s.choose g cancels = .cancel) :
    s.caller = false ∧ cancels s = true := by
  unfold choose at h
  split at h
  · next hfirst => simpa using hfirst
  split at h
  · cases h
  split at h
  · cases h
  split at h
  · cases h
  split at h <;> cases h

/-- Where anybody can make a step, the run that makes its choices itself makes one. -/
theorem exists_chosen {m : Move} (cancels : Run σ ε → Bool) (hm : m ≠ .cancel) (made : s.move g work m = some t) :
    ∃ u, s.move g work (s.choose g cancels) = some u := by
  unfold choose
  split
  · exact ⟨_, rfl⟩
  split
  · next htaken =>
    show ∃ u, s.launch work 0 = some u
    unfold Run.launch
    cases ht : s.taken with
    | nil => simp [ht] at htaken
    | cons id rest => exact ⟨_, rfl⟩
  next htaken =>
  have htaken : s.taken = [] := by simpa using htaken
  split
  · next h => exact Option.isSome_iff_exists.1 h
  split
  · next h => exact Option.isSome_iff_exists.1 h
  next hobserve hcoordinate =>
  split
  · next h =>
    rw [Bool.and_eq_true, decide_eq_true_eq] at h
    show ∃ u, s.take g = some u
    unfold Run.take
    split
    · next hq => simp [hq] at h
    · exact ⟨_, if_pos (by simpa [htaken] using h.2)⟩
  next htake =>
  -- only a busy worker can make a step
  cases m with
  | coordinate => exact absurd (Option.isSome_iff_exists.2 ⟨t, made⟩) hcoordinate
  | observe => exact absurd (Option.isSome_iff_exists.2 ⟨t, made⟩) hobserve
  | cancel => exact absurd rfl hm
  | take =>
    exfalso
    apply htake
    have made : s.take g = some t := made
    unfold Run.take at made
    split at made
    · cases made
    next id rest hq =>
    split at made
    · next hroom => simpa [hq, htaken] using hroom
    · cases made
  | launch i => simp [move, Run.launch, htaken] at made
  | finish i =>
    have made : s.finish i = some t := made
    show ∃ u, s.finish 0 = some u
    unfold Run.finish at made ⊢
    cases hw : s.working with
    | nil => simp [hw] at made
    | cons x rest => exact ⟨_, rfl⟩

/-- What it makes brings it nearer to its end. -/
theorem Sound.chosen_lt {cancels : Run σ ε → Bool} (h : s.Sound g)
    (made : s.move g work (s.choose g cancels) = some t) : t.remaining g < s.remaining g :=
  h.remaining_lt ⟨_, made, fun hc => (of_choose_cancel hc).1⟩

theorem continue_returns (cancels : Run σ ε → Bool) {n : Nat} (h : s.Sound g) (hn : s.remaining g ≤ n) :
    (continue_ g work cancels n s).Returned := by
  by_contra hr
  induction n generalizing s with
  | zero =>
    obtain ⟨m, t, hm, made⟩ := h.exists_move work hr
    obtain ⟨u, hu⟩ := exists_chosen cancels hm made
    have := h.chosen_lt hu
    omega
  | succ n ih =>
    unfold continue_ at hr
    split at hr
    · next stuck =>
      obtain ⟨m, t, hm, made⟩ := h.exists_move work hr
      obtain ⟨u, hu⟩ := exists_chosen cancels hm made
      rw [stuck] at hu
      cases hu
    · next u made =>
      have hlt := h.chosen_lt made
      exact ih (h.step (step_of_move made)) (by omega) hr

/-- The run that makes its choices itself returns. -/
theorem solve_returns (g : TaskGraph) (work : Work σ ε) (cancels : Run σ ε → Bool) (cancelled : Bool) (w : σ) :
    (solve g work cancels cancelled w).Returned := by
  apply continue_returns cancels (sound_start cancelled w)
  have hcaller := Bool.toNat_le (!cancelled)
  simp only [remaining, start, maxSteps, ahead, queuedIn, List.filterMap_nil, List.length_nil, Bool.toNat_true]
  omega

/-- Nobody cancels a run whose choices include no cancellation. -/
theorem solve_caller (g : TaskGraph) (work : Work σ ε) (w : σ) :
    (solve g work (fun _ => false) false w).caller = false := by
  have always (n : Nat) (s : Run σ ε) (hs : s.caller = false) :
      (continue_ g work (fun _ => false) n s).caller = false := by
    induction n generalizing s with
    | zero => exact hs
    | succ n ih =>
      unfold continue_
      split
      · exact hs
      next t made =>
      apply ih
      rw [(step_of_move made).caller_eq, hs]
      intro hc
      exact Bool.false_ne_true (of_choose_cancel hc).2
  exact always _ _ rfl

end Bundler.Run
