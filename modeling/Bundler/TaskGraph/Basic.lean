import Bundler.Failure
/-!
# Task graphs

Tasks are numbered, and each lists the tasks that it depends on. A dependency that is no task of the
graph counts as met. At most `concurrency` tasks run at the same time.
-/

namespace Bundler

/-- The number of a task. -/
abbrev TaskId := Nat

/-- Puts a task among others in ascending order; a task of the same number is replaced. -/
def insertTask (id : TaskId) (deps : List TaskId) :
    List (TaskId × List TaskId) → List (TaskId × List TaskId)
  | [] => [(id, deps)]
  | (k, ds) :: rest =>
    if id < k then (id, deps) :: (k, ds) :: rest
    else if id = k then (id, deps) :: rest
    else (k, ds) :: insertTask id deps rest

theorem mem_insertTask_ids (id : TaskId) (deps : List TaskId) (x : TaskId)
    (tasks : List (TaskId × List TaskId)) :
    x ∈ (insertTask id deps tasks).map Prod.fst ↔ x = id ∨ x ∈ tasks.map Prod.fst := by
  induction tasks with
  | nil => simp [insertTask]
  | cons t rest ih =>
    obtain ⟨k, ds⟩ := t
    unfold insertTask
    split
    · simp
    · split
      · next h => subst h; simp
      · simp only [List.map_cons, List.mem_cons, ih]
        constructor
        · rintro (h | h | h) <;> simp [h]
        · rintro (h | h | h) <;> simp [h]

theorem ascending_insertTask (id : TaskId) (deps : List TaskId)
    (tasks : List (TaskId × List TaskId)) (h : (tasks.map Prod.fst).Pairwise (· < ·)) :
    ((insertTask id deps tasks).map Prod.fst).Pairwise (· < ·) := by
  induction tasks with
  | nil => simp [insertTask]
  | cons t rest ih =>
    obtain ⟨k, ds⟩ := t
    rw [List.map_cons, List.pairwise_cons] at h
    unfold insertTask
    split
    · next hlt =>
      rw [List.map_cons, List.map_cons, List.pairwise_cons, List.pairwise_cons]
      refine ⟨?_, h⟩
      intro x hx
      rcases List.mem_cons.1 hx with rfl | hx
      · exact hlt
      · exact Nat.lt_trans hlt (h.1 x hx)
    · split
      · next heq => subst heq; rw [List.map_cons, List.pairwise_cons]; exact h
      · next hlt hne =>
        rw [List.map_cons, List.pairwise_cons]
        refine ⟨?_, ih h.2⟩
        intro x hx
        rcases (mem_insertTask_ids id deps x rest).1 hx with rfl | hx
        · exact Nat.lt_of_le_of_ne (Nat.le_of_not_lt hlt) (Ne.symm hne)
        · exact h.1 x hx

/-- Tasks with their dependencies, in ascending order, and how many may run at the same time. -/
structure TaskGraph where
  concurrency : Nat
  tasks : List (TaskId × List TaskId)
  concurrency_pos : 0 < concurrency
  ascending : (tasks.map Prod.fst).Pairwise (· < ·)

namespace TaskGraph

/-- The graph without tasks. At least one task may run at a time. -/
def empty (concurrency : Nat) : TaskGraph :=
  ⟨max concurrency 1, [], Nat.lt_of_lt_of_le Nat.one_pos (Nat.le_max_right ..), List.Pairwise.nil⟩

/-- Adds a task, in the place of any other of its number. -/
def add (g : TaskGraph) (id : TaskId) (deps : List TaskId) : TaskGraph :=
  { g with
    tasks := insertTask id deps g.tasks
    ascending := ascending_insertTask id deps g.tasks g.ascending }

/-- How many tasks there are. -/
def size (g : TaskGraph) : Nat := g.tasks.length

/-- The numbers of the tasks, ascending. -/
def ids (g : TaskGraph) : List TaskId := g.tasks.map Prod.fst

/-- Tasks `0` to `n - 1` without dependencies. -/
def independent (concurrency n : Nat) : TaskGraph :=
  { empty concurrency with
    tasks := (List.range n).map fun id => (id, [])
    ascending := by
      rw [List.map_map, show (Prod.fst ∘ fun id : TaskId => (id, ([] : List TaskId))) = id from rfl,
        List.map_id]
      exact List.pairwise_lt_range }

end TaskGraph

/-- Why a graph was not run to its end. -/
inductive SolveError (ε : Type) where
  /-- Nothing runs, and none of these tasks can start. -/
  | unsolvable (pending : List TaskId)
  | cancelled
  /-- A task failed. -/
  | task (id : TaskId) (failure : Failure ε)
  deriving DecidableEq, Repr

/-- A list of numbers in brackets. -/
def showIds (ids : List TaskId) : String := "[" ++ ", ".intercalate (ids.map toString) ++ "]"

/-- The text of the error, that of a task worded by `say`. -/
def SolveError.message {ε : Type} (say : ε → String) : SolveError ε → String
  | .unsolvable pending =>
    "Unsolvable task graph, tasks " ++ showIds pending ++ " can never start"
  | .cancelled => "Task graph execution was cancelled"
  | .task id (.error e) => "Task " ++ toString id ++ ":\n" ++ say e
  | .task id (.panic p) => "Task " ++ toString id ++ ":\n" ++ p.message

end Bundler
