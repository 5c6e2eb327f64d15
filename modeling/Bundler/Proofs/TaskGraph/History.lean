import Mathlib.Data.Fintype.Card
import Mathlib.Data.List.Sort
import Mathlib.Data.Set.Finite.List
import Mathlib.Logic.Relation
import Bundler.TaskGraph.Run
/-!
# Histories of runs

A history lists events, the latest first. It is `Causal` when each event was brought about by
events before it: a task is queued only when all that it depends on came back well and nothing has
gone wrong, is started only when queued, finishes only when started, and is received only when
finished. In such a history a task starts after its dependencies have finished well
(`Causal.finished_of_started`), so no task that leads into a cycle ever starts
(`Causal.not_reachesCycle`).
-/

namespace Bundler

open Relation

/-! ## Dependencies -/

namespace TaskGraph

variable {g : TaskGraph} {a b c : TaskId}

/-- `a` lists `b` as a dependency, and `b` is a task of the graph. -/
def DependsOn (g : TaskGraph) (a b : TaskId) : Prop := b ∈ g.ids ∧ ∃ deps, (a, deps) ∈ g.tasks ∧ b ∈ deps

/-- Dependencies lead from the task into a cycle. -/
def ReachesCycle (g : TaskGraph) (a : TaskId) : Prop :=
  ∃ b, ReflTransGen g.DependsOn a b ∧ TransGen g.DependsOn b b

theorem DependsOn.mem_ids (h : g.DependsOn a b) : a ∈ g.ids := by
  obtain ⟨-, deps, hmem, -⟩ := h
  exact List.mem_map.2 ⟨_, hmem, rfl⟩

theorem ids_nodup (g : TaskGraph) : g.ids.Nodup := g.ascending.imp Nat.ne_of_lt

/-- A task is listed once, with one list of dependencies. -/
theorem deps_unique {deps deps' : List TaskId} (h : (a, deps) ∈ g.tasks) (h' : (a, deps') ∈ g.tasks) :
    deps = deps' := by
  have := List.inj_on_of_nodup_map g.ids_nodup h h' rfl
  simpa using this

theorem ReachesCycle.of_dependsOn (h : g.DependsOn a b) (hb : g.ReachesCycle b) : g.ReachesCycle a := by
  obtain ⟨c, hbc, hc⟩ := hb
  exact ⟨c, hbc.head h, hc⟩

/-- A task that leads into a cycle depends on another such task, or on itself. -/
theorem ReachesCycle.exists_dependsOn (h : g.ReachesCycle a) : ∃ b, g.DependsOn a b ∧ g.ReachesCycle b := by
  obtain ⟨c, hac, hc⟩ := h
  rcases hac.cases_head with rfl | ⟨b, hab, hbc⟩
  · obtain ⟨b, hab, hba⟩ := TransGen.head'_iff.1 hc
    exact ⟨b, hab, a, hba, hc⟩
  · exact ⟨b, hab, c, hbc, hc⟩

theorem ReachesCycle.mem_ids (h : g.ReachesCycle a) : a ∈ g.ids := by
  obtain ⟨b, hab, -⟩ := h.exists_dependsOn
  exact hab.mem_ids

/-- Where every task of a set depends on another one of it, all of them lead into a cycle: there are
only finitely many tasks, so the dependencies cannot go on without coming back. -/
theorem reachesCycle_of_closed {P : TaskId → Prop} (hP : ∀ a, P a → a ∈ g.ids ∧ ∃ b, P b ∧ g.DependsOn a b)
    (ha : P a) : g.ReachesCycle a := by
  by_contra hno
  -- the tasks of the set that lead into no cycle, the end of a dependency being the smaller one
  let Stuck := { x : TaskId // P x ∧ ¬ g.ReachesCycle x }
  let below (x y : Stuck) : Prop := TransGen g.DependsOn y.1 x.1
  have : Finite Stuck := g.ids.finite_toSet.subset fun x hx => (hP x hx.1).1
  have : IsTrans Stuck below := ⟨fun _ _ _ hxy hyz => hyz.trans hxy⟩
  have : Std.Irrefl below := ⟨fun x hx => x.2.2 ⟨x.1, .refl, hx⟩⟩
  have wf : WellFounded below := Finite.wellFounded_of_trans_of_irrefl below
  have none (x : Stuck) : False := by
    induction x using wf.induction with
    | _ x ih =>
      obtain ⟨b, hb, hxb⟩ := (hP x.1 x.2.1).2
      exact ih ⟨b, hb, fun h => x.2.2 (h.of_dependsOn hxb)⟩ (.single hxb)
  exact none ⟨a, ha, hno⟩

end TaskGraph

/-! ## Events -/

namespace Run

variable {σ ε : Type} {g : TaskGraph} {h before after : List (Event ε)} {id d : TaskId} {r : TaskResult ε}

/-- The tasks that were queued, the latest first. -/
def queuedIn (h : List (Event ε)) : List TaskId :=
  h.filterMap fun
    | .queued id => some id
    | _ => none

/-- The tasks that were started, the latest first. -/
def startedIn (h : List (Event ε)) : List TaskId :=
  h.filterMap fun
    | .started id => some id
    | _ => none

/-- The tasks that finished, with their results, the latest first. -/
def finishedIn (h : List (Event ε)) : List (TaskId × TaskResult ε) :=
  h.filterMap fun
    | .finished id r => some (id, r)
    | _ => none

/-- The tasks whose results were received, the latest first. -/
def receivedIn (h : List (Event ε)) : List (TaskId × TaskResult ε) :=
  h.filterMap fun
    | .received id r => some (id, r)
    | _ => none

@[simp] theorem mem_queuedIn : id ∈ queuedIn h ↔ .queued id ∈ h := by
  simp only [queuedIn, List.mem_filterMap]
  constructor
  · rintro ⟨e, he, hid⟩
    cases e <;> simp_all
  · exact fun hid => ⟨_, hid, rfl⟩

@[simp] theorem mem_startedIn : id ∈ startedIn h ↔ .started id ∈ h := by
  simp only [startedIn, List.mem_filterMap]
  constructor
  · rintro ⟨e, he, hid⟩
    cases e <;> simp_all
  · exact fun hid => ⟨_, hid, rfl⟩

@[simp] theorem mem_finishedIn : (id, r) ∈ finishedIn h ↔ .finished id r ∈ h := by
  simp only [finishedIn, List.mem_filterMap]
  constructor
  · rintro ⟨e, he, hid⟩
    cases e <;> simp_all
  · exact fun hid => ⟨_, hid, rfl⟩

@[simp] theorem mem_receivedIn : (id, r) ∈ receivedIn h ↔ .received id r ∈ h := by
  simp only [receivedIn, List.mem_filterMap]
  constructor
  · rintro ⟨e, he, hid⟩
    cases e <;> simp_all
  · exact fun hid => ⟨_, hid, rfl⟩

theorem startedIds_perm (s : Run σ ε) : s.startedIds.Perm (startedIn s.history) := List.mergeSort_perm _ _

@[simp] theorem mem_startedIds {s : Run σ ε} : id ∈ s.startedIds ↔ .started id ∈ s.history :=
  s.startedIds_perm.mem_iff.trans mem_startedIn

/-- The first thing that went wrong: a failure that was received, or the cancellation seen. -/
def trouble : List (Event ε) → Option (SolveError ε)
  | [] => none
  | .received id (.error f) :: before => (trouble before).or (some (.task id f))
  | .observed :: before => (trouble before).or (some .cancelled)
  | _ :: before => trouble before

theorem trouble_cons (e : Event ε) (before : List (Event ε)) :
    trouble (e :: before) = (trouble before).or (trouble [e]) := by
  rcases e with _ | _ | _ | ⟨_, _ | ⟨⟩⟩ | _ <;> simp [trouble]

/-- What went wrong first is among the events. -/
theorem mem_of_trouble {e : SolveError ε} (ht : trouble h = some e) :
    e = .cancelled ∧ .observed ∈ h ∨ ∃ d f, e = .task d f ∧ .received d (.error f) ∈ h := by
  induction h with
  | nil => cases ht
  | cons x before ih =>
    rw [trouble_cons, Option.or_eq_some_iff] at ht
    rcases ht with ht | ⟨-, ht⟩
    · rcases ih ht with ⟨rfl, hb⟩ | ⟨d, f, rfl, hb⟩
      · exact .inl ⟨rfl, List.mem_cons_of_mem _ hb⟩
      · exact .inr ⟨d, f, rfl, List.mem_cons_of_mem _ hb⟩
    · rcases x with _ | _ | _ | ⟨d, f | ⟨⟩⟩ | _ <;>
        simp only [trouble, Option.none_or, Option.some.injEq, reduceCtorEq] at ht
      · exact .inr ⟨d, f, ht.symm, List.mem_cons_self⟩
      · exact .inl ⟨ht.symm, List.mem_cons_self⟩

theorem trouble_eq_none_iff : trouble h = none ↔ .observed ∉ h ∧ ∀ d f, .received d (.error f) ∉ h := by
  induction h with
  | nil => simp [trouble]
  | cons x before ih =>
    rw [trouble_cons, Option.or_eq_none_iff, ih]
    cases x with
    | received d r =>
      cases r with
      | ok _ => simp [trouble]
      | error f =>
        have hall : ¬ ∀ d' f', Event.received d' (.error f') ∉ Event.received d (.error f) :: before :=
          fun hall => hall d f List.mem_cons_self
        simp only [trouble, Option.none_or, reduceCtorEq, and_false, hall]
    | _ => simp [trouble]

/-- What must have happened before an event. -/
def Follows (g : TaskGraph) (before : List (Event ε)) : Event ε → Prop
  | .queued id => id ∈ g.ids ∧ (∀ d, g.DependsOn id d → .received d (.ok ()) ∈ before) ∧ trouble before = none
  | .started id => .queued id ∈ before
  | .finished id _ => .started id ∈ before
  | .received id r => .finished id r ∈ before
  | .observed => True

/-- Every event follows on what happened before it. -/
def Causal (g : TaskGraph) : List (Event ε) → Prop
  | [] => True
  | e :: before => Follows g before e ∧ Causal g before

namespace Causal

theorem drop (hc : Causal g (after ++ before)) : Causal g before := by
  induction after with
  | nil => exact hc
  | cons e after ih => exact ih hc.2

theorem follows {e : Event ε} (hc : Causal g (after ++ e :: before)) : Follows g before e := hc.drop.1

/-- An event of a history, with the part of the history that it follows on. -/
theorem exists_before {e : Event ε} (hc : Causal g h) (he : e ∈ h) :
    ∃ before, Follows g before e ∧ ∀ e' ∈ before, e' ∈ h := by
  obtain ⟨after, before, rfl⟩ := List.append_of_mem he
  exact ⟨before, hc.follows, fun e' he' => List.mem_append_right _ (List.mem_cons_of_mem _ he')⟩

theorem mem_ids_of_queued (hc : Causal g h) (hq : .queued id ∈ h) : id ∈ g.ids := by
  obtain ⟨before, hf, -⟩ := hc.exists_before hq
  exact hf.1

theorem received_of_queued (hc : Causal g h) (hq : .queued id ∈ h) (hd : g.DependsOn id d) :
    .received d (.ok ()) ∈ h := by
  obtain ⟨before, hf, hsub⟩ := hc.exists_before hq
  exact hsub _ (hf.2.1 d hd)

theorem queued_of_started (hc : Causal g h) (hs : .started id ∈ h) : .queued id ∈ h := by
  obtain ⟨before, hf, hsub⟩ := hc.exists_before hs
  exact hsub _ hf

theorem started_of_finished (hc : Causal g h) (hf : .finished id r ∈ h) : .started id ∈ h := by
  obtain ⟨before, hf, hsub⟩ := hc.exists_before hf
  exact hsub _ hf

theorem finished_of_received (hc : Causal g h) (hr : .received id r ∈ h) : .finished id r ∈ h := by
  obtain ⟨before, hf, hsub⟩ := hc.exists_before hr
  exact hsub _ hf

/-- A task starts after all that it depends on has finished well. -/
theorem finished_of_started (hc : Causal g (.started id :: before)) (hd : g.DependsOn id d) :
    .finished d (.ok ()) ∈ before :=
  hc.2.finished_of_received (hc.2.received_of_queued hc.1 hd)

/-- All that a started task depends on, directly or through other tasks, has finished well. -/
theorem finished_of_transGen (hc : Causal g h) (hs : .started id ∈ h) (hd : TransGen g.DependsOn id d) :
    .finished d (.ok ()) ∈ h := by
  have one {a b : TaskId} (ha : .started a ∈ h) (hab : g.DependsOn a b) : .finished b (.ok ()) ∈ h :=
    hc.finished_of_received (hc.received_of_queued (hc.queued_of_started ha) hab)
  induction hd with
  | single hab => exact one hs hab
  | tail _ hab ih => exact one (hc.started_of_finished ih) hab

/-- A task that leads into a cycle never starts: the first such task to start would follow on another
one. -/
theorem not_reachesCycle (hc : Causal g h) (hs : .started id ∈ h) : ¬ g.ReachesCycle id := by
  induction h generalizing id with
  | nil => cases hs
  | cons e before ih =>
    intro hcycle
    rcases List.mem_cons.1 hs with rfl | hs
    · obtain ⟨d, hd, hdcycle⟩ := hcycle.exists_dependsOn
      have hfin := hc.finished_of_started hd
      exact ih hc.2 (hc.2.started_of_finished hfin) hdcycle
    · exact ih hc.2 hs hcycle

end Causal
end Run
end Bundler
