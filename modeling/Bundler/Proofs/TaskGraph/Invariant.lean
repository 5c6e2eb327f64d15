import Mathlib.Data.List.Perm.Basic
import Bundler.Proofs.TaskGraph.History
/-!
# What every run keeps

`Step` lists all that can happen to a run in one step. `Sound` ties the state of a run to its
history: the queue, the workers and the results on their way back hold exactly the tasks whose last
event says so, the coordinator's own lists agree with them up to the task that it is handing over,
and the error is the first thing that went wrong. Every step keeps it (`Sound.step`), so it holds in
every state that a run reaches (`Reaches.sound`).
-/

namespace Bundler.Run

variable {σ ε : Type} {g : TaskGraph} {work : Work σ ε} {s t : Run σ ε}

/-! ## Settling and receiving -/

section Fields

variable (g : TaskGraph) (s : Run σ ε) (blocking sent : Bool) (id : TaskId) (r : TaskResult ε)

/-- Settling changes the phase, and nothing that can be read without it. -/
theorem read_settle {α : Type} (read : Run σ ε → α) (h : ∀ (s : Run σ ε) phase, read { s with phase } = read s) :
    read (s.settle g blocking sent) = read s := by
  unfold settle
  split
  · exact h s _
  · exact h s _

@[simp] theorem token_settle : (s.settle g blocking sent).token = s.token :=
  s.read_settle g blocking sent token fun _ _ => rfl

@[simp] theorem error_settle : (s.settle g blocking sent).error = s.error :=
  s.read_settle g blocking sent error fun _ _ => rfl

@[simp] theorem caller_settle : (s.settle g blocking sent).caller = s.caller :=
  s.read_settle g blocking sent caller fun _ _ => rfl

@[simp] theorem world_settle : (s.settle g blocking sent).world = s.world :=
  s.read_settle g blocking sent world fun _ _ => rfl

@[simp] theorem working_settle : (s.settle g blocking sent).working = s.working :=
  s.read_settle g blocking sent working fun _ _ => rfl

@[simp] theorem history_settle : (s.settle g blocking sent).history = s.history :=
  s.read_settle g blocking sent history fun _ _ => rfl

/-- A handing-over ends with waiting, or with the answer that there is nothing to wait for. -/
theorem phase_settle : (s.settle g blocking sent).phase = .waiting ∨
    (s.settle g blocking sent).phase = .returned (.error (.unsolvable (s.pending g))) := by
  unfold settle
  split
  · exact .inr rfl
  · exact .inl rfl

/-- Receiving a result tells what can be read without phase, error and token no more than that it came. -/
theorem read_receive {α : Type} (read : Run σ ε → α)
    (h : ∀ (s : Run σ ε) phase error token, read { s with phase, error, token } = read s) :
    read (s.receive g id r) = read { s.complete id with history := .received id r :: s.history } := by
  have hread := h { s.complete id with history := .received id r :: s.history }
  unfold receive
  rcases r with f | ⟨⟩ <;> dsimp only <;> split <;> exact hread _ _ _

@[simp] theorem caller_receive : (s.receive g id r).caller = s.caller :=
  s.read_receive g id r caller fun _ _ _ _ => rfl

@[simp] theorem world_receive : (s.receive g id r).world = s.world :=
  s.read_receive g id r world fun _ _ _ _ => rfl

@[simp] theorem working_receive : (s.receive g id r).working = s.working :=
  s.read_receive g id r working fun _ _ _ _ => rfl

@[simp] theorem history_receive : (s.receive g id r).history = .received id r :: s.history :=
  s.read_receive g id r history fun _ _ _ _ => rfl

@[simp] theorem token_receive_ok : (s.receive g id (.ok ())).token = s.token := by
  unfold receive
  dsimp only
  split <;> rfl

@[simp] theorem error_receive_ok : (s.receive g id (.ok ())).error = s.error := by
  unfold receive
  dsimp only
  split <;> rfl

/-- A failure is taken note of, and the tasks are told to stop. -/
@[simp] theorem token_receive_error (f : Failure ε) : (s.receive g id (.error f)).token = true := by
  unfold receive
  dsimp only
  split <;> rfl

@[simp] theorem error_receive_error (f : Failure ε) :
    (s.receive g id (.error f)).error = s.error.or (some (.task id f)) := by
  unfold receive
  dsimp only
  split <;> rfl

/-- What comes back is waited for, or something is handed over. -/
theorem phase_receive : (s.receive g id r).phase = .waiting ∨
    ∃ ids, (s.receive g id r).phase = .feeding false ids false := by
  unfold receive
  rcases r with f | ⟨⟩ <;> dsimp only <;> split
  all_goals first
    | exact .inl rfl
    | exact .inr ⟨_, rfl⟩

end Fields

/-! ## Steps -/

/-- One step of a run, and whose it is. -/
inductive Step (g : TaskGraph) (work : Work σ ε) (s : Run σ ε) : Move → Run σ ε → Prop where
  /-- There is no task. -/
  | leave (phase : s.phase = .entering) (fin : s.finished g = true) : Step g work s .coordinate (s.answer (.ok ()))
  /-- The caller cancelled beforehand. -/
  | decline (phase : s.phase = .entering) (fin : s.finished g = false) (caller : s.caller = true) :
    Step g work s .coordinate ({ s with token := true }.answer (.error .cancelled))
  /-- The first handing-over begins. -/
  | prime (phase : s.phase = .entering) (fin : s.finished g = false) (caller : s.caller = false) :
    Step g work s .coordinate { s with phase := .feeding true (s.ready g) false }
  /-- A handing-over ends: with its list, or at a full queue. -/
  | settle (blocking sent : Bool) (rest : List TaskId) (phase : s.phase = .feeding blocking rest sent)
    (stop : rest = [] ∨ blocking = false ∧ ¬ s.queue.length < g.concurrency) :
    Step g work s .coordinate (s.settle g blocking sent)
  | send (blocking sent : Bool) (id : TaskId) (rest : List TaskId)
    (phase : s.phase = .feeding blocking (id :: rest) sent) (room : s.queue.length < g.concurrency) :
    Step g work s .coordinate { s with
      queue := s.queue ++ [id]
      phase := .recording blocking id rest
      history := .queued id :: s.history }
  | note (blocking : Bool) (id : TaskId) (rest : List TaskId) (phase : s.phase = .recording blocking id rest) :
    Step g work s .coordinate { s with inFlight := id :: s.inFlight, phase := .feeding blocking rest true }
  /-- All is done, or nothing more is to come of a failed run. -/
  | conclude (phase : s.phase = .waiting) (fin : s.finished g = true) (idle : s.inFlight = []) :
    Step g work s .coordinate (s.answer s.verdict)
  | receive (id : TaskId) (r : TaskResult ε) (rest : List (TaskId × TaskResult ε)) (phase : s.phase = .waiting)
    (front : s.done = (id, r) :: rest) : Step g work s .coordinate ({ s with done := rest }.receive g id r)
  | observe (phase : s.phase = .waiting) (watching : s.watching = true) (caller : s.caller = true) :
    Step g work s .observe ({ s with watching := false, history := .observed :: s.history }.fail .cancelled)
  | take (id : TaskId) (rest : List TaskId) (front : s.queue = id :: rest)
    (room : s.taken.length + s.working.length < g.concurrency) :
    Step g work s .take { s with queue := rest, taken := s.taken ++ [id] }
  | launch (i : Nat) (id : TaskId) (holds : s.taken[i]? = some id) :
    Step g work s (.launch i) { s with
      taken := s.taken.eraseIdx i
      working := s.working ++ [(id, (work s.token id s.world).2)]
      world := (work s.token id s.world).1
      history := .started id :: s.history }
  | finish (i : Nat) (id : TaskId) (r : TaskResult ε) (busy : s.working[i]? = some (id, r)) :
    Step g work s (.finish i) { s with
      working := s.working.eraseIdx i
      done := s.done ++ [(id, r)]
      history := .finished id r :: s.history }
  | cancel : Step g work s .cancel { s with caller := true }

theorem step_of_coordinate (h : s.coordinate g = some t) : Step g work s .coordinate t := by
  unfold coordinate at h
  split at h
  next phase =>
    split at h
    next fin => cases h; exact .leave phase fin
    next fin =>
      split at h
      next caller => cases h; exact .decline phase (by simpa using fin) caller
      next caller => cases h; exact .prime phase (by simpa using fin) (by simpa using caller)
  next blocking sent phase => cases h; exact .settle blocking sent [] phase (.inl rfl)
  next blocking id rest sent phase =>
    split at h
    next room => cases h; exact .send blocking sent id rest phase room
    next full =>
      split at h
      next => cases h
      next free => cases h; exact .settle blocking sent (id :: rest) phase (.inr ⟨by simpa using free, full⟩)
  next blocking id rest phase => cases h; exact .note blocking id rest phase
  next phase =>
    split at h
    next fin =>
      rw [Bool.and_eq_true, List.isEmpty_iff] at fin
      cases h
      exact .conclude phase fin.1 fin.2
    next =>
      split at h
      next => cases h
      next id r rest front => cases h; exact .receive id r rest phase front
  next => cases h

theorem step_of_observe (h : s.observe g = some t) : Step g work s .observe t := by
  unfold observe at h
  split at h
  next phase =>
    split at h
    next => cases h
    next =>
      split at h
      next seen =>
        rw [Bool.and_eq_true] at seen
        cases h
        exact .observe phase seen.1 seen.2
      next => cases h
  next => cases h

theorem step_of_take (h : s.take g = some t) : Step g work s .take t := by
  unfold take at h
  split at h
  next => cases h
  next id rest front =>
    split at h
    next room => cases h; exact .take id rest front room
    next => cases h

theorem step_of_launch {i : Nat} (h : s.launch work i = some t) : Step g work s (.launch i) t := by
  unfold launch at h
  split at h
  next => cases h
  next id holds => cases h; exact .launch i id holds

theorem step_of_finish {i : Nat} (h : s.finish i = some t) : Step g work s (.finish i) t := by
  unfold finish at h
  split at h
  next => cases h
  next id r busy => cases h; exact .finish i id r busy

/-- Every move is a step. -/
theorem step_of_move {m : Move} (h : s.move g work m = some t) : Step g work s m t := by
  cases m with
  | coordinate => exact step_of_coordinate h
  | observe => exact step_of_observe h
  | take => exact step_of_take h
  | launch i => exact step_of_launch h
  | finish i => exact step_of_finish h
  | cancel => cases h; exact .cancel

/-! ## The invariant -/

/-- The task that is in the queue already, while the coordinator has not taken note of it yet. -/
def noting (s : Run σ ε) : List TaskId :=
  match s.phase with
  | .recording _ id _ => [id]
  | _ => []

/-- The tasks in the queue, those that workers hold, and those whose results are on their way back. -/
def held (s : Run σ ε) : List TaskId := s.queue ++ s.taken ++ s.working.map Prod.fst ++ s.done.map Prod.fst

/-- Tasks that can be handed over, one after the other. -/
structure Feedable (g : TaskGraph) (s : Run σ ε) (rest : List TaskId) : Prop where
  nodup : rest.Nodup
  task : ∀ id ∈ rest, id ∈ g.ids
  new : ∀ id ∈ rest, .queued id ∉ s.history
  met : ∀ id ∈ rest, ∀ d, g.DependsOn id d → d ∈ s.completed

/-- What an answer says about the run that it ends. -/
def Concluded (g : TaskGraph) (s : Run σ ε) : Except (SolveError ε) Unit → Prop
  | .ok () => s.error = none ∧ g.size ≤ s.completed.length
  | .error .cancelled => s.caller = true
  | .error (.task id f) => .received id (.error f) ∈ s.history
  | .error (.unsolvable pending) =>
    s.error = none ∧ s.completed.length < g.size ∧ s.ready g = [] ∧ pending = s.pending g

/-- What holds where the coordinator stands. -/
def PhaseSound (g : TaskGraph) (s : Run σ ε) : Prop :=
  match s.phase with
  | .entering => s.history = []
  | .feeding blocking rest sent =>
    s.error = none ∧ s.completed.length < g.size ∧ s.Feedable g rest ∧
      if sent then s.inFlight ≠ [] else rest = s.ready g ∧ (blocking = true → s.inFlight = [])
  | .recording _ _ rest => s.error = none ∧ s.completed.length < g.size ∧ s.Feedable g rest
  | .waiting => s.finished g = true ∨ s.inFlight ≠ []
  | .returned r => s.inFlight = [] ∧ s.Concluded g r

/-- The lists of a run agree with its history. -/
structure Accounts (g : TaskGraph) (s : Run σ ε) : Prop where
  queued : (queuedIn s.history).Perm (s.queue ++ (s.taken ++ startedIn s.history))
  started : (startedIn s.history).Perm (s.working.map Prod.fst ++ (finishedIn s.history).map Prod.fst)
  finished : finishedIn s.history = s.done.reverse ++ receivedIn s.history
  completed : s.completed = (receivedIn s.history).map Prod.fst
  known : (queuedIn s.history).Perm (s.noting ++ s.inFlight ++ s.completed)
  nodup : (queuedIn s.history).Nodup
  room : s.queue.length ≤ g.concurrency
  error : s.error = trouble s.history
  seen : .observed ∈ s.history → s.caller = true
  causal : Causal g s.history

/-- The state of a run agrees with its history, and the coordinator stands where it should. -/
structure Sound (g : TaskGraph) (s : Run σ ε) : Prop extends Accounts g s where
  phase : s.PhaseSound g

namespace Accounts

variable (h : s.Accounts g)
include h

theorem started_nodup : (startedIn s.history).Nodup :=
  (h.queued.nodup_iff.1 h.nodup).of_append_right.of_append_right

theorem finished_nodup : ((finishedIn s.history).map Prod.fst).Nodup :=
  (h.started.nodup_iff.1 h.started_nodup).of_append_right

theorem received_nodup : ((receivedIn s.history).map Prod.fst).Nodup := by
  have := h.finished_nodup
  rw [h.finished, List.map_append] at this
  exact this.of_append_right

theorem completed_nodup : s.completed.Nodup := h.completed ▸ h.received_nodup

theorem mem_completed {id : TaskId} : id ∈ s.completed ↔ ∃ r, .received id r ∈ s.history := by
  rw [h.completed, List.mem_map]
  constructor
  · rintro ⟨⟨id, r⟩, hr, rfl⟩
    exact ⟨r, mem_receivedIn.1 hr⟩
  · exact fun ⟨r, hr⟩ => ⟨(id, r), mem_receivedIn.2 hr, rfl⟩

theorem mem_ids_of_known {id : TaskId} (hid : id ∈ s.noting ++ s.inFlight ++ s.completed) : id ∈ g.ids :=
  h.causal.mem_ids_of_queued (mem_queuedIn.1 (h.known.mem_iff.2 hid))

theorem mem_ids_of_completed {id : TaskId} (hid : id ∈ s.completed) : id ∈ g.ids :=
  h.mem_ids_of_known (List.mem_append_right _ hid)

/-- A task that is neither noted as handed over nor back, while nothing is being noted, was never
queued. -/
theorem not_queued {id : TaskId} (hn : s.noting = []) (hf : id ∉ s.inFlight) (hc : id ∉ s.completed) :
    .queued id ∉ s.history := by
  intro hq
  have hmem := h.known.mem_iff.1 (mem_queuedIn.2 hq)
  rw [hn, List.nil_append, List.mem_append] at hmem
  exact hmem.elim hf hc

/-- A task that was put into the queue is held somewhere until its result is received. -/
theorem queued_perm : (queuedIn s.history).Perm (s.held ++ s.completed) := by
  have hfinished : ((finishedIn s.history).map Prod.fst).Perm (s.done.map Prod.fst ++ s.completed) := by
    rw [h.finished, h.completed, List.map_append, List.map_reverse]
    exact (List.reverse_perm _).append_right _
  have hstarted := h.started.trans (hfinished.append_left _)
  rw [held, List.append_assoc, List.append_assoc, List.append_assoc]
  exact h.queued.trans ((hstarted.append_left _).append_left _)

/-- The tasks on their way are those that the coordinator knows to be on their way. -/
theorem held_perm : s.held.Perm (s.noting ++ s.inFlight) :=
  (List.perm_append_right_iff s.completed).1 (h.queued_perm.symm.trans h.known)

theorem length_held : s.queue.length + s.taken.length + s.working.length + s.done.length =
    s.noting.length + s.inFlight.length := by
  simpa only [held, List.length_append, List.length_map] using h.held_perm.length_eq

/-- Of a task all of whose runs that were received went well, the result was good. -/
theorem received_ok {d : TaskId} (he : s.error = none) (hd : d ∈ s.completed) :
    .received d (.ok ()) ∈ s.history := by
  obtain ⟨r, hr⟩ := h.mem_completed.1 hd
  rw [h.error] at he
  cases r with
  | ok _ => exact hr
  | error f => exact absurd hr ((trouble_eq_none_iff.1 he).2 d f)

theorem size_le_iff : g.size ≤ s.completed.length ↔ ∀ id ∈ g.ids, id ∈ s.completed := by
  have sub : s.completed.Subperm g.ids :=
    h.completed_nodup.subperm fun _ hid => h.mem_ids_of_completed hid
  have hsize : g.size = g.ids.length := by simp [TaskGraph.size, TaskGraph.ids]
  rw [hsize]
  constructor
  · exact fun hle id hid => (sub.perm_of_length_le hle).mem_iff.2 hid
  · exact fun hall => (g.ids_nodup.subperm fun _ hid => hall _ hid).length_le

/-- The tasks that can be handed over, where nothing is half handed over. -/
theorem feedable_ready (hn : s.noting = []) : s.Feedable g (s.ready g) := by
  have sub : (s.ready g).Sublist g.ids := List.filter_sublist.map _
  have spec : ∀ id ∈ s.ready g, ∃ deps, (id, deps) ∈ g.tasks ∧ s.isReady g id deps = true := by
    intro id hid
    obtain ⟨⟨id, deps⟩, hmem, rfl⟩ := List.mem_map.1 hid
    exact ⟨deps, List.mem_filter.1 hmem⟩
  refine ⟨g.ids_nodup.sublist sub, fun id hid => sub.subset hid, fun id hid => ?_, fun id hid d hd => ?_⟩
  · obtain ⟨deps, -, hready⟩ := spec id hid
    simp only [isReady, Bool.and_eq_true, Bool.not_eq_true', List.contains_eq_mem, decide_eq_false_iff_not] at hready
    exact h.not_queued hn hready.1.1 hready.1.2
  · obtain ⟨deps, hmem, hready⟩ := spec id hid
    obtain ⟨hids, deps', hmem', hdeps⟩ := hd
    rw [TaskGraph.deps_unique hmem' hmem] at hdeps
    simp only [isReady, Bool.and_eq_true, List.all_eq_true] at hready
    simpa [hids] using hready.2 d hdeps

/-- Where the coordinator stands makes no difference, as long as it is not noting a task. -/
theorem at_phase (hn : s.noting = []) (phase : Phase ε) (hp : ({ s with phase } : Run σ ε).noting = []) :
    ({ s with phase } : Run σ ε).Accounts g := by
  refine { h with known := ?_ }
  rw [hp]
  exact hn ▸ h.known

end Accounts

/-! ## Results that are taken in -/

/-- A result was taken in. Whether the run goes on is not decided yet. -/
def acknowledge (s : Run σ ε) (id : TaskId) (r : TaskResult ε) (rest : List (TaskId × TaskResult ε)) : Run σ ε :=
  { s with
    done := rest
    completed := id :: s.completed
    inFlight := s.inFlight.filter (· ≠ id)
    error := trouble (.received id r :: s.history)
    token := s.token || r.toOption.isNone
    history := .received id r :: s.history }

theorem receive_eq_acknowledge {id : TaskId} {r : TaskResult ε} {rest : List (TaskId × TaskResult ε)}
    (hnew : id ∉ s.completed) (herror : s.error = trouble s.history) :
    { s with done := rest }.receive g id r =
      if (s.acknowledge id r rest).finished g then { s.acknowledge id r rest with phase := .waiting }
      else { s.acknowledge id r rest with phase := .feeding false ((s.acknowledge id r rest).ready g) false } := by
  cases r with
  | ok _ => simp [Run.receive, acknowledge, complete, hnew, trouble, herror, Except.toOption]
  | error f => simp [Run.receive, acknowledge, complete, hnew, trouble, herror, fail, Except.toOption]

namespace Accounts

variable (h : s.Accounts g) (hn : s.noting = []) {id : TaskId} {r : TaskResult ε} {rest : List (TaskId × TaskResult ε)}
  (front : s.done = (id, r) :: rest)
include h hn front

/-- The task of the first result has finished, and it is in flight: nothing was received from it. -/
theorem of_front : .finished id r ∈ s.history ∧ id ∉ s.completed ∧ id ∈ s.inFlight := by
  have hfin := h.finished
  rw [front, List.reverse_cons, List.append_assoc, List.singleton_append] at hfin
  have hfinished : .finished id r ∈ s.history := mem_finishedIn.1 (hfin ▸ by simp)
  have hnew : id ∉ s.completed := by
    have := h.finished_nodup
    rw [hfin, List.map_append, List.map_cons, ← h.completed] at this
    exact (List.nodup_cons.1 this.of_append_right).1
  have hknown := h.known
  rw [hn, List.nil_append] at hknown
  have hq := h.causal.queued_of_started (h.causal.started_of_finished hfinished)
  exact ⟨hfinished, hnew, (List.mem_append.1 (hknown.mem_iff.1 (mem_queuedIn.2 hq))).resolve_right hnew⟩

theorem acknowledge : (s.acknowledge id r rest).Accounts g := by
  obtain ⟨hfinished, -, hflight⟩ := h.of_front hn front
  have hfin := h.finished
  rw [front, List.reverse_cons, List.append_assoc, List.singleton_append] at hfin
  have hknown := h.known
  rw [hn, List.nil_append] at hknown
  -- the task goes from those in flight to the completed ones, so that the known tasks stay the same
  have hperm : s.inFlight.Perm (id :: s.inFlight.filter (· ≠ id)) := by
    have hnd : s.inFlight.Nodup := (hknown.nodup_iff.1 h.nodup).of_append_left
    have hne : (fun x : TaskId => x != id) = fun x => decide (x ≠ id) := by
      funext x
      rw [Bool.eq_iff_iff, bne_iff_ne, decide_eq_true_eq]
    rw [← hne, ← hnd.erase_eq_filter]
    exact List.perm_cons_erase hflight
  have hnone : (s.acknowledge id r rest).noting = [] := hn
  refine { h with finished := hfin, completed := ?_, known := ?_, error := rfl, seen := ?_, causal := ?_ }
  · exact congrArg (id :: ·) h.completed
  · rw [hnone, List.nil_append]
    exact hknown.trans ((hperm.append_right _).trans List.perm_middle.symm)
  · simpa [Run.acknowledge] using h.seen
  · exact ⟨hfinished, h.causal⟩

end Accounts

/-! ## Every step keeps it -/

theorem ready_congr (hf : t.inFlight = s.inFlight) (hc : t.completed = s.completed) : t.ready g = s.ready g := by
  unfold ready isReady
  rw [hf, hc]

theorem pending_congr (hc : t.completed = s.completed) : t.pending g = s.pending g := by
  unfold pending
  rw [hc]

theorem feedable_congr {rest : List TaskId} (hh : ∀ id, .queued id ∈ t.history → .queued id ∈ s.history)
    (hc : t.completed = s.completed) (hf : s.Feedable g rest) : t.Feedable g rest where
  nodup := hf.nodup
  task := hf.task
  new id hid hq := hf.new id hid (hh id hq)
  met := by rw [hc]; exact hf.met

/-- A step that the coordinator has no part in. -/
structure Aside (s t : Run σ ε) : Prop where
  phase : t.phase = s.phase
  completed : t.completed = s.completed
  inFlight : t.inFlight = s.inFlight
  error : t.error = s.error
  caller : s.caller = true → t.caller = true
  queued : ∀ id, .queued id ∈ t.history ↔ .queued id ∈ s.history
  received : ∀ id r, .received id r ∈ s.history → .received id r ∈ t.history
  entered : s.phase ≠ .entering ∨ t.history = s.history

theorem Aside.phaseSound (a : Aside s t) (h : s.PhaseSound g) : t.PhaseSound g := by
  unfold PhaseSound at h ⊢
  rw [a.phase, a.completed, a.inFlight, a.error]
  split at h
  next phase => exact (a.entered.resolve_left (absurd phase)).trans h
  next =>
    obtain ⟨he, hl, hf, hs⟩ := h
    refine ⟨he, hl, feedable_congr (fun id => (a.queued id).1) a.completed hf, ?_⟩
    rw [ready_congr a.inFlight a.completed]
    exact hs
  next =>
    obtain ⟨he, hl, hf⟩ := h
    exact ⟨he, hl, feedable_congr (fun id => (a.queued id).1) a.completed hf⟩
  next =>
    have hfin : t.finished g = s.finished g := by unfold Run.finished; rw [a.error, a.completed]
    rw [hfin]
    exact h
  next =>
    refine ⟨h.1, ?_⟩
    have hc := h.2
    unfold Concluded at hc ⊢
    rw [a.error, a.completed, ready_congr a.inFlight a.completed, pending_congr a.completed]
    split at hc
    · exact hc
    · exact a.caller hc
    · exact a.received _ _ hc
    · exact hc

theorem sound_start (cancelled : Bool) (world : σ) : (start cancelled world : Run σ ε).Sound g where
  queued := .nil
  started := .nil
  finished := rfl
  completed := rfl
  known := .nil
  nodup := .nil
  room := Nat.zero_le _
  error := rfl
  seen := nofun
  causal := trivial
  phase := rfl

namespace Sound

theorem settle (h : s.Sound g) {blocking sent : Bool} {rest : List TaskId}
    (phase : s.phase = .feeding blocking rest sent)
    (stop : rest = [] ∨ blocking = false ∧ ¬ s.queue.length < g.concurrency) :
    (s.settle g blocking sent).Sound g := by
  have hn : s.noting = [] := by simp [noting, phase]
  have hp := h.phase
  simp only [PhaseSound, phase] at hp
  obtain ⟨he, hl, -, hs⟩ := hp
  unfold Run.settle
  split
  next hnone =>
    simp only [Bool.and_eq_true, Bool.not_eq_true', Bool.or_eq_true, List.isEmpty_iff] at hnone
    rw [hnone.1, if_neg Bool.false_ne_true] at hs
    have hidle : s.inFlight = [] := hnone.2.elim hs.2 id
    have hrest : rest = [] := by
      rcases stop with hrest | ⟨-, hfull⟩
      · exact hrest
      · -- with nothing on its way the queue is empty, and an empty queue is not full
        have hlen := h.length_held
        rw [hn, hidle] at hlen
        have := g.concurrency_pos
        simp only [List.length_nil] at hlen
        omega
    exact { h.at_phase hn (.returned _) rfl with
      phase := ⟨hidle, he, hl, hs.1.symm.trans hrest, rfl⟩ }
  next hsome =>
    refine { h.at_phase hn .waiting rfl with phase := ?_ }
    cases sent with
    | true => exact .inr (by simpa using hs)
    | false => exact .inr (by simp_all)

theorem send (h : s.Sound g) {blocking sent : Bool} {id : TaskId} {rest : List TaskId}
    (phase : s.phase = .feeding blocking (id :: rest) sent) (room : s.queue.length < g.concurrency) :
    Sound g { s with
      queue := s.queue ++ [id]
      phase := .recording blocking id rest
      history := .queued id :: s.history } := by
  have hn : s.noting = [] := by simp [noting, phase]
  have hp := h.phase
  simp only [PhaseSound, phase] at hp
  obtain ⟨he, hl, hf, -⟩ := hp
  have hnew : id ∉ queuedIn s.history := mem_queuedIn.not.2 (hf.new id List.mem_cons_self)
  refine { h with queued := ?_, known := ?_, nodup := ?_, room := ?_, seen := ?_, causal := ?_, phase := ?_ }
  · rw [List.append_assoc, List.singleton_append]
    exact (h.queued.cons id).trans List.perm_middle.symm
  · have := h.known
    rw [hn, List.nil_append] at this
    exact this.cons id
  · exact List.nodup_cons.2 ⟨hnew, h.nodup⟩
  · simpa using Nat.succ_le_of_lt room
  · simpa using h.seen
  · refine ⟨⟨hf.task id List.mem_cons_self, fun d hd => ?_, h.error ▸ he⟩, h.causal⟩
    exact h.received_ok he (hf.met id List.mem_cons_self d hd)
  · refine ⟨he, hl, (List.nodup_cons.1 hf.nodup).2, fun x hx => hf.task x (List.mem_cons_of_mem _ hx), ?_,
      fun x hx => hf.met x (List.mem_cons_of_mem _ hx)⟩
    intro x hx hq
    rcases List.mem_cons.1 hq with heq | hq
    · cases heq
      exact (List.nodup_cons.1 hf.nodup).1 hx
    · exact hf.new x (List.mem_cons_of_mem _ hx) hq

theorem note (h : s.Sound g) {blocking : Bool} {id : TaskId} {rest : List TaskId}
    (phase : s.phase = .recording blocking id rest) :
    Sound g { s with inFlight := id :: s.inFlight, phase := .feeding blocking rest true } := by
  have hn : s.noting = [id] := by simp [noting, phase]
  have hp := h.phase
  simp only [PhaseSound, phase] at hp
  obtain ⟨he, hl, hf⟩ := hp
  refine { h with known := ?_, phase := ⟨he, hl, ⟨hf.nodup, hf.task, hf.new, hf.met⟩, by simp⟩ }
  have := h.known
  rw [hn] at this
  exact this

theorem receive (h : s.Sound g) {id : TaskId} {r : TaskResult ε} {rest : List (TaskId × TaskResult ε)}
    (phase : s.phase = .waiting) (front : s.done = (id, r) :: rest) :
    ({ s with done := rest }.receive g id r).Sound g := by
  have hn : s.noting = [] := by simp [noting, phase]
  have base := h.acknowledge hn front
  rw [receive_eq_acknowledge (h.of_front hn front).2.1 h.error]
  split
  next fin => exact { base.at_phase hn .waiting rfl with phase := .inl fin }
  next more =>
    simp only [Run.finished, Bool.or_eq_true, Option.isSome_iff_ne_none, decide_eq_true_eq, not_or, not_not,
      not_le] at more
    have hf := base.feedable_ready hn
    exact { base.at_phase hn (.feeding false ((s.acknowledge id r rest).ready g) false) rfl with
      phase := ⟨more.1, more.2, ⟨hf.nodup, hf.task, hf.new, hf.met⟩, rfl, fun h => absurd h Bool.false_ne_true⟩ }

theorem enter (h : s.Sound g) (phase : s.phase = .entering) :
    s.noting = [] ∧ s.inFlight = [] ∧ s.completed = [] ∧ s.error = none := by
  have hp := h.phase
  simp only [PhaseSound, phase] at hp
  have hknown := h.known
  have herr := h.error
  rw [hp] at hknown herr
  have hnil : s.noting ++ s.inFlight ++ s.completed = [] := List.nil_perm.1 hknown
  simp only [List.append_eq_nil_iff] at hnil
  exact ⟨hnil.1.1, hnil.1.2, hnil.2, herr⟩

theorem leave (h : s.Sound g) (phase : s.phase = .entering) (fin : s.finished g = true) :
    (s.answer (.ok ())).Sound g := by
  obtain ⟨hn, hi, -, he⟩ := h.enter phase
  have hle : g.size ≤ s.completed.length := by simpa [Run.finished, he] using fin
  exact { h.at_phase hn (.returned (.ok ())) rfl with phase := ⟨hi, he, hle⟩ }

theorem decline (h : s.Sound g) (phase : s.phase = .entering) (caller : s.caller = true) :
    ({ s with token := true }.answer (.error .cancelled)).Sound g := by
  obtain ⟨hn, hi, -, -⟩ := h.enter phase
  exact { h.at_phase hn (.returned (.error .cancelled)) rfl with phase := ⟨hi, caller⟩ }

theorem prime (h : s.Sound g) (phase : s.phase = .entering) (fin : s.finished g = false) :
    ({ s with phase := .feeding true (s.ready g) false } : Run σ ε).Sound g := by
  obtain ⟨hn, hi, -, he⟩ := h.enter phase
  have hlt : s.completed.length < g.size := by simpa [Run.finished, he] using fin
  have hf := h.feedable_ready hn
  exact { h.at_phase hn (.feeding true (s.ready g) false) rfl with
    phase := ⟨he, hlt, ⟨hf.nodup, hf.task, hf.new, hf.met⟩, rfl, fun _ => hi⟩ }

theorem conclude (h : s.Sound g) (phase : s.phase = .waiting) (fin : s.finished g = true) (idle : s.inFlight = []) :
    (s.answer s.verdict).Sound g := by
  have hn : s.noting = [] := by simp [noting, phase]
  refine { h.at_phase hn (.returned s.verdict) rfl with phase := ⟨idle, ?_⟩ }
  cases he : s.error with
  | none =>
    have hle : g.size ≤ s.completed.length := by simpa [Run.finished, he] using fin
    rw [verdict, he]
    exact ⟨he, hle⟩
  | some e =>
    rw [verdict, he]
    have ht := h.error
    rw [he] at ht
    rcases mem_of_trouble ht.symm with ⟨rfl, hobs⟩ | ⟨d, f, rfl, hrec⟩
    · exact h.seen hobs
    · exact hrec

theorem observe (h : s.Sound g) (phase : s.phase = .waiting) (caller : s.caller = true) :
    ({ s with watching := false, history := .observed :: s.history }.fail .cancelled).Sound g := by
  refine { h with error := ?_, seen := fun _ => caller, causal := ⟨trivial, h.causal⟩, phase := ?_ }
  · simp [fail, trouble, h.error]
  · simp [PhaseSound, fail, phase, Run.finished]

/-- Before the coordinator's first step nobody works. -/
theorem not_entering (h : s.Sound g) (busy : 0 < s.queue.length + s.taken.length + s.working.length) :
    s.phase ≠ .entering := by
  intro phase
  obtain ⟨hn, hi, -, -⟩ := h.enter phase
  have hlen := h.length_held
  rw [hn, hi] at hlen
  simp only [List.length_nil] at hlen
  omega

theorem take (h : s.Sound g) {id : TaskId} {rest : List TaskId} (front : s.queue = id :: rest) :
    ({ s with queue := rest, taken := s.taken ++ [id] } : Run σ ε).Sound g := by
  refine { h with queued := ?_, room := ?_, phase := ?_ }
  · have hqueued := h.queued
    rw [front] at hqueued
    rw [List.append_assoc, List.singleton_append]
    refine hqueued.trans (List.perm_middle.symm.trans ?_)
    exact List.perm_middle.symm.append_left _
  · have := h.room
    rw [front] at this
    exact Nat.le_of_succ_le this
  · have busy : 0 < s.queue.length + s.taken.length + s.working.length := by
      rw [front, List.length_cons]
      omega
    have aside : Aside s { s with queue := rest, taken := s.taken ++ [id] } :=
      ⟨rfl, rfl, rfl, rfl, fun hc => hc, fun _ => .rfl, fun _ _ hr => hr, .inl (h.not_entering busy)⟩
    exact aside.phaseSound h.phase

theorem launch (h : s.Sound g) {i : Nat} {id : TaskId} (world : σ) (r : TaskResult ε)
    (holds : s.taken[i]? = some id) :
    ({ s with
      taken := s.taken.eraseIdx i
      working := s.working ++ [(id, r)]
      world
      history := .started id :: s.history } : Run σ ε).Sound g := by
  obtain ⟨hi, hget⟩ := List.getElem?_eq_some_iff.1 holds
  have hperm : s.taken.Perm (id :: s.taken.eraseIdx i) := by
    rw [← hget]
    exact (List.getElem_cons_eraseIdx_perm hi).symm
  -- the task goes from those that are taken to those that were started
  have hqueued : (queuedIn s.history).Perm (s.queue ++ (s.taken.eraseIdx i ++ id :: startedIn s.history)) :=
    h.queued.trans (((hperm.append_right _).trans List.perm_middle.symm).append_left _)
  refine { h with queued := hqueued, started := ?_, seen := ?_, causal := ?_, phase := ?_ }
  · rw [List.map_append, List.append_assoc, List.map_singleton, List.singleton_append]
    exact (h.started.cons id).trans List.perm_middle.symm
  · simpa using h.seen
  · exact ⟨mem_queuedIn.1 (hqueued.mem_iff.2 (by simp)), h.causal⟩
  · have aside : Aside s { s with
        taken := s.taken.eraseIdx i, working := s.working ++ [(id, r)], world, history := .started id :: s.history } :=
      ⟨rfl, rfl, rfl, rfl, fun hc => hc, by simp, by simp, .inl (h.not_entering (by omega))⟩
    exact aside.phaseSound h.phase

theorem finish (h : s.Sound g) {i : Nat} {id : TaskId} {r : TaskResult ε} (busy : s.working[i]? = some (id, r)) :
    ({ s with
      working := s.working.eraseIdx i
      done := s.done ++ [(id, r)]
      history := .finished id r :: s.history } : Run σ ε).Sound g := by
  obtain ⟨hi, hget⟩ := List.getElem?_eq_some_iff.1 busy
  have hperm : (id :: (s.working.eraseIdx i).map Prod.fst).Perm (s.working.map Prod.fst) := by
    have := (List.getElem_cons_eraseIdx_perm hi).map Prod.fst
    rwa [hget] at this
  refine { h with started := ?_, finished := ?_, seen := ?_, causal := ?_, phase := ?_ }
  · refine h.started.trans ((hperm.symm.append_right _).trans ?_)
    exact List.perm_middle.symm
  · rw [List.reverse_append, List.reverse_singleton, List.append_assoc, List.singleton_append]
    exact congrArg ((id, r) :: ·) h.finished
  · simpa using h.seen
  · refine ⟨mem_startedIn.1 (h.started.mem_iff.2 (List.mem_append_left _ ?_)), h.causal⟩
    exact List.mem_map.2 ⟨(id, r), hget ▸ List.getElem_mem hi, rfl⟩
  · have aside : Aside s { s with
        working := s.working.eraseIdx i, done := s.done ++ [(id, r)], history := .finished id r :: s.history } :=
      ⟨rfl, rfl, rfl, rfl, fun hc => hc, by simp, by simp, .inl (h.not_entering (by omega))⟩
    exact aside.phaseSound h.phase

theorem cancel (h : s.Sound g) : ({ s with caller := true } : Run σ ε).Sound g := by
  refine { h with seen := fun _ => rfl, phase := ?_ }
  have aside : Aside s { s with caller := true } :=
    ⟨rfl, rfl, rfl, rfl, fun _ => rfl, fun _ => .rfl, fun _ _ hr => hr, .inr rfl⟩
  exact aside.phaseSound h.phase

theorem step (h : s.Sound g) {m : Move} (hstep : Step g work s m t) : t.Sound g := by
  cases hstep with
  | leave phase fin => exact h.leave phase fin
  | decline phase _ caller => exact h.decline phase caller
  | prime phase fin => exact h.prime phase fin
  | settle _ _ _ phase stop => exact h.settle phase stop
  | send _ _ _ _ phase room => exact h.send phase room
  | note _ _ _ phase => exact h.note phase
  | conclude phase fin idle => exact h.conclude phase fin idle
  | receive _ _ _ phase front => exact h.receive phase front
  | observe phase _ caller => exact h.observe phase caller
  | take _ _ front => exact h.take front
  | launch _ _ holds => exact h.launch _ _ holds
  | finish _ _ _ busy => exact h.finish busy
  | cancel => exact h.cancel

end Sound

/-- The state agrees with the history wherever a run comes to. -/
theorem Reaches.sound (h : Reaches g work s t) (hs : s.Sound g) : t.Sound g := by
  induction h with
  | refl => exact hs
  | step _ _ made ih => exact ih.step (step_of_move made)

end Bundler.Run
