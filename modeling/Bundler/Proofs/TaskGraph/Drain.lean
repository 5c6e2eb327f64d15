import Bundler.Proofs.TaskGraph.Outcome
/-!
# How a run that goes wrong ends

The first handing-over does not stop before every task that waits for nothing is queued (`Primed`), so
these tasks run whatever goes wrong later. Only a cancellation that the coordinator finds when it first
looks keeps them from running: then nothing is handed over at all (`not_ranOnce_of_early`). After the
first failure or the caller's cancellation nothing more is queued, what was queued comes back, and the
answer tells of what went wrong first (`drained`).
-/

namespace Bundler

/-- A task that depends on no task of the graph. -/
def TaskGraph.Root (g : TaskGraph) (id : TaskId) : Prop := id ∈ g.ids ∧ ∀ d, ¬ g.DependsOn id d

namespace Run

variable {σ ε : Type} {g : TaskGraph} {work : Work σ ε} {s t first : Run σ ε} {h : List (Event ε)} {world : σ}

/-- A task was started once, and it has finished once. -/
def RanOnce (s : Run σ ε) (id : TaskId) : Prop :=
  s.startedIds.count id = 1 ∧ ((finishedIn s.history).map Prod.fst).count id = 1

/-! ## The first handing-over -/

/-- The tasks that the first handing-over has still to hand over. -/
def unprimed (s : Run σ ε) : List TaskId :=
  match s.phase with
  | .feeding true rest _ => rest
  | .recording true _ rest => rest
  | _ => []

/-- The run has begun, and every task that waits for nothing is queued or will be by the first
handing-over. -/
structure Primed (g : TaskGraph) (s : Run σ ε) : Prop where
  entered : s.phase ≠ .entering
  roots : ∀ id, g.Root id → .queued id ∈ s.history ∨ id ∈ s.unprimed

/-- In the beginning a task that waits for nothing can be handed over. -/
theorem mem_ready_of_root (hi : s.inFlight = []) (hc : s.completed = []) {id : TaskId} (hid : g.Root id) :
    id ∈ s.ready g := by
  obtain ⟨hmem, hroot⟩ := hid
  obtain ⟨⟨id, deps⟩, htask, rfl⟩ := List.mem_map.1 hmem
  refine List.mem_map.2 ⟨(id, deps), List.mem_filter.2 ⟨htask, ?_⟩, rfl⟩
  have outside : ∀ d ∈ deps, d ∉ g.ids := fun d hd hin => hroot d ⟨hin, deps, htask, hd⟩
  simpa [isReady, hi, hc] using outside

/-- A handing-over that is the first one begins with every task that waits for nothing. -/
theorem Sound.primed (hs : s.Sound g) (phase : s.phase = .entering) :
    ({ s with phase := .feeding true (s.ready g) false } : Run σ ε).Primed g := by
  obtain ⟨-, hi, hc, -⟩ := hs.enter phase
  exact ⟨nofun, fun id hid => .inr (mem_ready_of_root hi hc hid)⟩

namespace Primed

variable (hp : s.Primed g)
include hp

/-- More may happen without the coordinator, or after the first handing-over. -/
theorem of_queued (entered : t.phase ≠ .entering)
    (kept : ∀ id, .queued id ∈ s.history → .queued id ∈ t.history)
    (later : ∀ id ∈ s.unprimed, .queued id ∈ t.history ∨ id ∈ t.unprimed) : t.Primed g := by
  refine ⟨entered, fun id hid => ?_⟩
  rcases hp.roots id hid with hq | hu
  · exact .inl (kept id hq)
  · exact later id hu

theorem settle {blocking sent : Bool} {rest : List TaskId} (phase : s.phase = .feeding blocking rest sent)
    (stop : rest = [] ∨ blocking = false ∧ ¬ s.queue.length < g.concurrency) :
    (s.settle g blocking sent).Primed g := by
  -- the first handing-over stops at the end of its list only
  have done : s.unprimed = [] := by
    rcases stop with rfl | ⟨rfl, -⟩
    · cases blocking <;> simp [unprimed, phase]
    · simp [unprimed, phase]
  refine hp.of_queued ?_ (fun id hq => by rwa [history_settle]) (by simp [done])
  rcases s.phase_settle g blocking sent with heq | heq <;> simp [heq]

theorem send {blocking sent : Bool} {id : TaskId} {rest : List TaskId}
    (phase : s.phase = .feeding blocking (id :: rest) sent) :
    Primed g { s with
      queue := s.queue ++ [id]
      phase := .recording blocking id rest
      history := .queued id :: s.history } := by
  refine hp.of_queued nofun (fun x hq => List.mem_cons_of_mem _ hq) fun x hx => ?_
  cases blocking with
  | false => simp [unprimed, phase] at hx
  | true =>
    simp only [unprimed, phase, List.mem_cons] at hx ⊢
    rcases hx with rfl | hx
    · exact .inl (.inl rfl)
    · exact .inr hx

theorem receive {id : TaskId} {r : TaskResult ε} {rest : List (TaskId × TaskResult ε)} (phase : s.phase = .waiting) :
    ({ s with done := rest }.receive g id r).Primed g := by
  refine hp.of_queued ?_ (fun x hq => by rw [history_receive]; exact List.mem_cons_of_mem _ hq)
    (by simp [unprimed, phase])
  rcases phase_receive g { s with done := rest } id r with heq | ⟨ids, heq⟩ <;> simp [heq]

theorem step {m : Move} (hstep : Step g work s m t) : t.Primed g := by
  cases hstep with
  | leave phase => exact absurd phase hp.entered
  | decline phase => exact absurd phase hp.entered
  | prime phase => exact absurd phase hp.entered
  | settle _ _ _ phase stop => exact hp.settle phase stop
  | send _ _ _ _ phase => exact hp.send phase
  | note blocking id rest phase =>
    refine hp.of_queued nofun (fun _ hq => hq) fun x hx => .inr ?_
    cases blocking with
    | false => simp [unprimed, phase] at hx
    | true => simpa [unprimed, phase] using hx
  | conclude phase => exact hp.of_queued nofun (fun _ hq => hq) (by simp [unprimed, phase])
  | receive _ _ _ phase => exact hp.receive phase
  | observe phase =>
    exact hp.of_queued hp.entered (fun _ hq => List.mem_cons_of_mem _ hq) (by simp [unprimed, phase])
  | take => exact hp.of_queued hp.entered (fun _ hq => hq) fun _ hx => .inr hx
  | launch => exact hp.of_queued hp.entered (fun _ hq => List.mem_cons_of_mem _ hq) fun _ hx => .inr hx
  | finish => exact hp.of_queued hp.entered (fun _ hq => List.mem_cons_of_mem _ hq) fun _ hx => .inr hx
  | cancel => exact hp.of_queued hp.entered (fun _ hq => hq) fun _ hx => .inr hx

end Primed

/-! ## A cancellation that comes early -/

/-- The run came by a state before priming in which the caller had cancelled. -/
def CancelledEarly (g : TaskGraph) (work : Work σ ε) (s t : Run σ ε) : Prop :=
  ∃ u, Reaches g work s u ∧ u.phase = .entering ∧ u.caller = true ∧ Reaches g work u t

theorem CancelledEarly.step {m : Move} (h : CancelledEarly g work first s) (made : s.move g work m = some t) :
    CancelledEarly g work first t := by
  obtain ⟨u, hu, phase, caller, hafter⟩ := h
  exact ⟨u, hu, phase, caller, .step m hafter made⟩

theorem CancelledEarly.caller (h : CancelledEarly g work first s) : s.caller = true := by
  obtain ⟨u, -, -, caller, hafter⟩ := h
  by_contra hs
  rw [Bool.not_eq_true] at hs
  rw [hafter.caller hs] at caller
  cases caller

/-- The coordinator has not looked yet, or it has found the cancellation, and nothing was handed over. -/
structure Declined (g : TaskGraph) (s : Run σ ε) : Prop where
  sound : s.Sound g
  caller : s.caller = true
  silent : s.history = []
  phase : s.phase = .entering ∨ s.phase = .returned (.error .cancelled)

theorem Sound.idle_of_silent (hs : s.Sound g) (silent : s.history = []) :
    s.queue = [] ∧ s.taken = [] ∧ s.working = [] ∧ s.completed = [] := by
  have hq := hs.queued
  have hc := hs.completed
  have hw := hs.started
  rw [silent] at hq hc hw
  have hnil := List.nil_perm.1 hq
  simp only [List.append_eq_nil_iff] at hnil
  exact ⟨hnil.1, hnil.2.1, List.map_eq_nil_iff.1 (List.append_eq_nil_iff.1 (List.nil_perm.1 hw)).1, hc⟩

theorem Declined.step {m : Move} (tasks : 0 < g.size) (hd : s.Declined g) (hstep : Step g work s m t) :
    t.Declined g := by
  have hs := hd.sound.step hstep
  obtain ⟨hqueue, htaken, hworking, hcompleted⟩ := hd.sound.idle_of_silent hd.silent
  cases hstep with
  | leave phase fin =>
    obtain ⟨-, -, -, herror⟩ := hd.sound.enter phase
    simp [Run.finished, herror, hcompleted, Nat.not_le.2 tasks] at fin
  | decline => exact ⟨hs, hd.caller, hd.silent, .inr rfl⟩
  | prime _ _ caller => cases hd.caller.symm.trans caller
  | settle _ _ _ phase | send _ _ _ _ phase | note _ _ _ phase | conclude phase | receive _ _ _ phase | observe phase =>
    rcases hd.phase with entering | returned
    · cases phase.symm.trans entering
    · cases phase.symm.trans returned
  | take _ _ front => cases hqueue.symm.trans front
  | launch _ _ holds => simp [htaken] at holds
  | finish _ _ _ busy => simp [hworking] at busy
  | cancel => exact ⟨hs, rfl, hd.silent, hd.phase⟩

/-- After an early cancellation a run that has tasks hands nothing over. -/
theorem CancelledEarly.declined (tasks : 0 < g.size) (hf : first.Sound g) (h : CancelledEarly g work first s) :
    s.Declined g := by
  obtain ⟨u, hu, phase, caller, hafter⟩ := h
  have hsound := hu.sound hf
  have silent : u.history = [] := by
    have hp := hsound.phase
    simpa only [PhaseSound, phase] using hp
  induction hafter with
  | refl => exact ⟨hsound, caller, silent, .inl phase⟩
  | step _ _ made ih => exact ih.step tasks (step_of_move made)

/-- A run that has tasks and that the caller did not cancel early begins with the first handing-over. -/
theorem Reaches.begins (tasks : 0 < g.size) (h : Reaches g work (start false world) s) :
    s.phase = .entering ∨ s.Primed g ∨ CancelledEarly g work (start false world) s := by
  induction h with
  | refl => exact .inl rfl
  | step m before made ih =>
    have hs := before.sound (sound_start false world)
    have hstep := step_of_move made
    rcases ih with phase | primed | early
    · cases hstep with
      | leave _ fin =>
        obtain ⟨-, -, hcompleted, herror⟩ := hs.enter phase
        simp [Run.finished, herror, hcompleted, Nat.not_le.2 tasks] at fin
      | decline _ _ caller => exact .inr (.inr ⟨_, before, phase, caller, .step _ (.refl _) made⟩)
      | prime => exact .inr (.inl (hs.primed phase))
      | take | launch | finish | cancel => exact .inl phase
      | settle _ _ _ at_ | send _ _ _ _ at_ | note _ _ _ at_ | conclude at_ | receive _ _ _ at_ | observe at_ =>
        cases phase.symm.trans at_
    · exact .inr (.inl (primed.step hstep))
    · exact .inr (.inr (early.step made))

/-! ## The error that is answered -/

/-- A failure that is answered is the error that the run took note of. -/
def Truthful (s : Run σ ε) : Prop :=
  ∀ id f, s.phase = .returned (.error (.task id f)) → s.error = some (.task id f)

theorem Truthful.step (ht : s.Truthful) {m : Move} (hstep : Step g work s m t) : t.Truthful := by
  intro id f phase
  cases hstep with
  | settle blocking sent =>
    rcases s.phase_settle g blocking sent with heq | heq <;> cases heq.symm.trans phase
  | conclude =>
    simp only [answer, Phase.returned.injEq, verdict] at phase
    split at phase
    · next e he =>
      cases phase
      exact he
    · cases phase
  | receive id' r rest =>
    rcases phase_receive g { s with done := rest } id' r with heq | ⟨ids, heq⟩ <;> cases heq.symm.trans phase
  | observe waiting =>
    simp only [fail, waiting, reduceCtorEq] at phase
  | take => exact ht id f phase
  | launch => exact ht id f phase
  | finish => exact ht id f phase
  | cancel => exact ht id f phase
  | _ => cases phase

theorem Reaches.truthful (h : Reaches g work first s) (ht : first.Truthful) : s.Truthful := by
  induction h with
  | refl => exact ht
  | step _ _ made ih => exact ih.step (step_of_move made)

/-- What went wrong first, if it was a failure, is a failure that was received before all others. -/
theorem first_of_trouble {id : TaskId} {f : Failure ε} (ht : trouble h = some (.task id f)) :
    ∃ after before, h = after ++ .received id (.error f) :: before ∧ trouble before = none := by
  induction h with
  | nil => cases ht
  | cons x before ih =>
    rw [trouble_cons, Option.or_eq_some_iff] at ht
    rcases ht with ht | ⟨hnone, ht⟩
    · obtain ⟨after, earlier, rfl, hnone⟩ := ih ht
      exact ⟨x :: after, earlier, rfl, hnone⟩
    · rcases x with _ | _ | _ | ⟨d, f' | ⟨⟩⟩ | _ <;>
        simp only [trouble, Option.none_or, Option.some.injEq, reduceCtorEq, SolveError.task.injEq] at ht
      obtain ⟨rfl, rfl⟩ := ht
      exact ⟨[], before, rfl, hnone⟩

/-! ## A run that has returned -/

namespace Sound

variable (hs : s.Sound g) {r : Except (SolveError ε) Unit} (phase : s.phase = .returned r)
include hs phase

theorem received_of_finished {id : TaskId} {result : TaskResult ε} (hf : .finished id result ∈ s.history) :
    .received id result ∈ s.history := by
  obtain ⟨hn, hi, -⟩ := hs.concluded phase
  rw [← mem_finishedIn, (hs.received_of_idle hn hi).2] at hf
  exact mem_receivedIn.1 hf

/-- What was queued has come back. -/
theorem received_of_queued {id : TaskId} (hq : .queued id ∈ s.history) :
    ∃ result, .received id result ∈ s.history := by
  obtain ⟨hn, hi, -⟩ := hs.concluded phase
  have hknown := hs.known
  rw [hn, hi, List.nil_append, List.nil_append] at hknown
  exact hs.mem_completed.1 (hknown.mem_iff.1 (mem_queuedIn.2 hq))

theorem ranOnce_of_queued {id : TaskId} (hq : .queued id ∈ s.history) : s.RanOnce id := by
  obtain ⟨result, hr⟩ := hs.received_of_queued phase hq
  have hf := hs.causal.finished_of_received hr
  refine ⟨List.count_eq_one_of_mem hs.startedIds_nodup (mem_startedIds.2 (hs.causal.started_of_finished hf)), ?_⟩
  exact List.count_eq_one_of_mem hs.finished_nodup (List.mem_map.2 ⟨_, mem_finishedIn.2 hf, rfl⟩)

/-- Where something has failed, the answer is an error of a task or the cancellation. -/
theorem answer_of_failure {id : TaskId} {f : Failure ε} (hf : .finished id (.error f) ∈ s.history) :
    (∃ d f', r = .error (.task d f')) ∨ r = .error .cancelled := by
  obtain ⟨-, -, hr⟩ := hs.concluded phase
  have wrong : s.error ≠ none := by
    rw [hs.error]
    exact fun hnone => (trouble_eq_none_iff.1 hnone).2 id f (hs.received_of_finished phase hf)
  rcases r with (pending | _ | ⟨d, f'⟩) | ⟨⟩
  · exact absurd hr.1 wrong
  · exact .inr rfl
  · exact .inl ⟨d, f', rfl⟩
  · exact absurd hr.1 wrong

end Sound

/-- Take a run that finds a task and whose caller has not cancelled when it starts. It returns, and until then nothing
is queued after the first failure was received or the cancellation was seen. When it has returned, every task that
waits for nothing has run once, unless the caller had cancelled before the coordinator first looked: then the
cancellation is answered, and nothing has happened. What was queued has been run and received, and nothing is left on
its way; where something has failed, the answer is the failure of a task or the cancellation; the failure of a task is
the first one that was received; and the cancellation is answered only if the caller cancelled. -/
theorem drained (tasks : 0 < g.size) (h : Reaches g work (start false world) s) :
    Inevitably g work Returned s ∧
    (∀ after before id, s.history = after ++ .queued id :: before →
      .observed ∉ before ∧ ∀ d f, .received d (.error f) ∉ before) ∧
    ∀ r, s.phase = .returned r →
      (¬ CancelledEarly g work (start false world) s → ∀ id, g.Root id → s.RanOnce id) ∧
      (CancelledEarly g work (start false world) s → r = .error .cancelled ∧ s.history = []) ∧
      (∀ id, .queued id ∈ s.history →
        ∃ result, .finished id result ∈ s.history ∧ .received id result ∈ s.history) ∧
      (s.queue = [] ∧ s.taken = [] ∧ s.working = [] ∧ s.done = []) ∧
      (∀ id f, .finished id (.error f) ∈ s.history →
        (∃ d f', r = .error (.task d f')) ∨ r = .error .cancelled) ∧
      (∀ id f, r = .error (.task id f) →
        ∃ after before, s.history = after ++ .received id (.error f) :: before ∧
          ∀ d f', .received d (.error f') ∉ before) ∧
      (r = .error .cancelled → s.caller = true) := by
  have sound : s.Sound g := h.sound (sound_start false world)
  have truthful : s.Truthful := h.truthful (by simp [Truthful, start])
  refine ⟨sound.inevitably_returns work, fun after before id hsplit => ?_, fun r phase => ⟨fun late id hid => ?_,
    fun early => ?_, fun id hq => ?_, sound.idle phase, fun id f hf => sound.answer_of_failure phase hf,
    fun id f hr => ?_, fun hr => ?_⟩⟩
  · have causal := sound.causal
    rw [hsplit] at causal
    exact trouble_eq_none_iff.1 causal.follows.2.2
  · rcases h.begins tasks with entering | primed | early
    · cases entering.symm.trans phase
    · refine sound.ranOnce_of_queued phase ((primed.roots id hid).resolve_right ?_)
      simp [unprimed, phase]
    · exact absurd early late
  · have declined := early.declined tasks (sound_start false world)
    rcases declined.phase with entering | returned
    · cases entering.symm.trans phase
    · cases phase.symm.trans returned
      exact ⟨rfl, declined.silent⟩
  · obtain ⟨result, hr⟩ := sound.received_of_queued phase hq
    exact ⟨result, sound.causal.finished_of_received hr, hr⟩
  · have ht : trouble s.history = some (.task id f) := sound.error.symm.trans (truthful id f (hr ▸ phase))
    obtain ⟨after, before, hsplit, hnone⟩ := first_of_trouble ht
    exact ⟨after, before, hsplit, (trouble_eq_none_iff.1 hnone).2⟩
  · subst hr
    exact (sound.concluded phase).2.2

/-- Two workers for four tasks: `3` waits for `1`, the others wait for nothing. -/
def threeRoots : TaskGraph := ((((TaskGraph.empty 2).add 1 []).add 2 []).add 3 [1]).add 4 [7]

/-- Task `1` fails and task `4` panics. -/
def failsAt1 : Work Unit String := fun _ id world =>
  (world, if id = 1 then .error (.error "lost") else if id = 4 then .error (.panic (.text "boom")) else .ok ())

theorem root_threeRoots {id : TaskId} (deps : List TaskId) (htask : (id, deps) ∈ threeRoots.tasks)
    (hdeps : ∀ d ∈ deps, d ∉ threeRoots.ids) : threeRoots.Root id := by
  refine ⟨List.mem_map.2 ⟨_, htask, rfl⟩, fun d ⟨hin, deps', htask', hd⟩ => ?_⟩
  rw [TaskGraph.deps_unique htask' htask] at hd
  exact hdeps d hd hin

/-- Where `1` fails first, `2` and `4` still run, and the failure of `1` is answered. -/
theorem drained_of_failure :
    ∃ s : Run Unit String, 0 < threeRoots.size ∧ Reaches threeRoots failsAt1 (start false ()) s ∧
      s.phase = .returned (.error (.task 1 (.error "lost"))) ∧ (s.RanOnce 1 ∧ s.RanOnce 2 ∧ s.RanOnce 4) ∧
      .queued 3 ∉ s.history := by
  have reached := reaches_solve threeRoots failsAt1 (fun _ => false) false ()
  have phase : (solve threeRoots failsAt1 (fun _ => false) false ()).phase =
      .returned (.error (.task 1 (.error "lost"))) := rfl
  have queued : queuedIn (solve threeRoots failsAt1 (fun _ => false) false ()).history = [4, 2, 1] := rfl
  have late :
      ¬ CancelledEarly threeRoots failsAt1 (start false ()) (solve threeRoots failsAt1 (fun _ => false) false ()) :=
    fun early => absurd early.caller (by decide)
  obtain ⟨-, -, returned⟩ := drained (by decide) reached
  have roots := (returned _ phase).1 late
  refine ⟨_, by decide, reached, phase, ⟨roots 1 (root_threeRoots [] (by decide) (by decide)),
    roots 2 (root_threeRoots [] (by decide) (by decide)),
    roots 4 (root_threeRoots [7] (by decide) (by decide))⟩, fun hq => ?_⟩
  exact absurd (queued ▸ mem_queuedIn.2 hq) (by decide)

/-- Where the caller cancels when the run has started and before the coordinator has looked, a task that waits for
nothing does not run. -/
theorem not_ranOnce_of_early :
    ∃ s : Run Unit String, 0 < threeRoots.size ∧ Reaches threeRoots failsAt1 (start false ()) s ∧
      s.phase = .returned (.error .cancelled) ∧ threeRoots.Root 1 ∧ ¬ s.RanOnce 1 := by
  obtain ⟨s, hs⟩ : ∃ s : Run Unit String,
      [Move.cancel, .coordinate].foldlM (move threeRoots failsAt1) (start false ()) = some s := ⟨_, rfl⟩
  refine ⟨s, by decide, reaches_of_foldlM hs, ?_⟩
  cases hs
  refine ⟨rfl, root_threeRoots [] (by decide) (by decide), fun ⟨hstarted, _⟩ => ?_⟩
  have hmem := mem_startedIds.1 (List.count_pos_iff.1 (hstarted ▸ Nat.one_pos))
  cases hmem

end Run
end Bundler
