import Bundler.Bundle.Find
import Bundler.Proofs.Path
import Bundler.Proofs.Sorted
import Mathlib.Algebra.GroupWithZero.Nat
import Mathlib.Algebra.Order.BigOperators.Group.List
import Mathlib.Algebra.Order.Group.Nat
import Mathlib.Logic.Relation
/-!
# Walking over records

The walk from a module comes by exactly what a chain of imports leads to (`mem_reachable_iff`). It comes
by nothing else because a path is pending only when something visited imports it (`reach_sound`), and by
all of it because what is visited has its imports pending or visited (`Open`). The number of visits it is
granted is enough: each one takes a pending path, and the imports of a record become pending only once
(`unvisited`).
-/

namespace Bundler.Bundle

open Relation (ReflTransGen)

variable {records : Records} {p q path module : Path} {record : Record} {pending seen : List Path}

/-- The record of one path lists another one. -/
def Lists (records : Records) (p q : Path) : Prop := q ∈ importsOf records p

theorem importsOf_congr (h : p.Same q) : importsOf records p = importsOf records q := by
  have hcompare : Path.compare p = Path.compare q := by
    funext k
    rw [Path.compare, Path.compare, h]
  rw [importsOf, importsOf]
  induction records with
  | nil => rfl
  | cons first rest ih =>
    rw [Sorted.find?, Sorted.find?, hcompare]
    split
    · rfl
    · exact ih

theorem importsOf_of_mem (hasc : Sorted.Ascending Path.compare records) (hmem : (q, record) ∈ records)
    (h : p.Same q) : importsOf records p = record.imports := by
  rw [importsOf, Sorted.find?_of_mem hasc hmem (Path.compare_eq_iff.2 h)]
  rfl

/-! ## Nothing else -/

theorem reach_sound {n : Nat} (hpending : ∀ p ∈ pending, ReflTransGen (Lists records) module p)
    (hseen : ∀ p ∈ seen, ReflTransGen (Lists records) module p) :
    ∀ p ∈ reach records n pending seen, ReflTransGen (Lists records) module p := by
  induction n generalizing pending seen with
  | zero => exact hseen
  | succ n ih =>
    cases pending with
    | nil => exact hseen
    | cons path pending =>
      rw [List.forall_mem_cons] at hpending
      rw [reach]
      split
      · exact ih hpending.2 hseen
      · refine ih (fun p hp => ?_) (List.forall_mem_cons.2 ⟨hpending.1, hseen⟩)
        rcases List.mem_append.1 hp with hp | hp
        · exact hpending.1.tail hp
        · exact hpending.2 p hp

/-! ## All of it -/

/-- A spelling of the path is among some paths. -/
def Among (path : Path) (paths : List Path) : Prop := ∃ p ∈ paths, p.Same path

instance : Decidable (Among p pending) := inferInstanceAs (Decidable (∃ _ ∈ _, _))

@[simp] theorem not_among_nil : ¬ Among path [] := fun ⟨_, hmem, _⟩ => absurd hmem List.not_mem_nil

theorem among_cons : Among path (p :: seen) ↔ p.Same path ∨ Among path seen := by simp [Among]

theorem Among.of_same (h : Among p seen) (hsame : p.Same q) : Among q seen := by
  obtain ⟨k, hk, hkp⟩ := h
  exact ⟨k, hk, hkp.trans hsame⟩

theorem any_same_iff : (seen.any fun p => decide (p.Same path)) = true ↔ Among path seen := by
  rw [List.any_eq_true]
  simp only [decide_eq_true_iff, Among]

/-- What is visited has its imports visited or pending. -/
def Open (records : Records) (pending seen : List Path) : Prop :=
  ∀ p ∈ seen, ∀ q ∈ importsOf records p, Among q pending ∨ Among q seen

/-- How many imports a record has, if it is not visited. -/
def unvisitedImports (seen : List Path) (entry : Path × Record) : Nat :=
  if Among entry.1 seen then 0 else entry.2.imports.length

/-- How many imports the records have that are not visited. -/
def unvisited (records : Records) (seen : List Path) : Nat := (records.map (unvisitedImports seen)).sum

theorem unvisitedImports_cons_le (path : Path) (seen : List Path) (entry : Path × Record) :
    unvisitedImports (path :: seen) entry ≤ unvisitedImports seen entry := by
  unfold unvisitedImports
  split
  · exact Nat.zero_le _
  · next hnew => exact (if_neg fun h => hnew (among_cons.2 (.inr h))).ge

theorem unvisited_cons_le (records : Records) (path : Path) (seen : List Path) :
    unvisited records (path :: seen) ≤ unvisited records seen :=
  List.sum_le_sum fun entry _ => unvisitedImports_cons_le path seen entry

/-- The imports of a path that is visited for the first time are taken off. -/
theorem unvisited_cons (records : Records) (hnew : ¬ Among path seen) :
    unvisited records (path :: seen) + (importsOf records path).length ≤ unvisited records seen := by
  induction records with
  | nil => exact Nat.le_refl 0
  | cons first rest ih =>
    simp only [unvisited, importsOf, List.map_cons, List.sum_cons, Sorted.find?] at ih ⊢
    split
    · next heq =>
      -- the first record is the one of the path
      have hsame := Path.compare_eq_iff.1 heq
      have hgone : unvisitedImports (path :: seen) first = 0 := if_pos ⟨path, List.mem_cons_self, hsame⟩
      have hthere : unvisitedImports seen first = first.2.imports.length :=
        if_neg fun h => hnew (h.of_same hsame.symm)
      have hrest := unvisited_cons_le rest path seen
      simp only [unvisited] at hrest
      rw [hgone, hthere, Option.map_some, Option.getD_some]
      omega
    · have hfirst := unvisitedImports_cons_le path seen first
      omega

theorem reach_complete {n : Nat} (hopen : Open records pending seen)
    (hfuel : pending.length + unvisited records seen ≤ n) :
    (∀ p, Among p pending ∨ Among p seen → Among p (reach records n pending seen)) ∧
      Open records [] (reach records n pending seen) := by
  induction n generalizing pending seen with
  | zero =>
    obtain rfl : pending = [] := List.length_eq_zero_iff.1 (by omega)
    exact ⟨fun p hp => hp.resolve_left not_among_nil, hopen⟩
  | succ n ih =>
    cases pending with
    | nil => exact ⟨fun p hp => hp.resolve_left not_among_nil, hopen⟩
    | cons path pending =>
      rw [List.length_cons] at hfuel
      rw [reach]
      split
      · next hseen =>
        rw [any_same_iff] at hseen
        have hmoved {p : Path} (hp : Among p (path :: pending)) : Among p pending ∨ Among p seen :=
          (among_cons.1 hp).symm.imp_right hseen.of_same
        obtain ⟨hall, hclosed⟩ := ih (fun p hp q hq => (hopen p hp q hq).elim hmoved .inr) (by omega)
        exact ⟨fun p hp => hall p (hp.elim hmoved .inr), hclosed⟩
      · next hseen =>
        rw [any_same_iff] at hseen
        have hless := unvisited_cons records hseen
        have hmoved {p : Path} (hp : Among p (path :: pending) ∨ Among p seen) :
            Among p (importsOf records path ++ pending) ∨ Among p (path :: seen) := by
          rw [among_cons, or_assoc] at hp
          rw [among_cons]
          rcases hp with hp | ⟨q, hq, hsame⟩ | hp
          · exact .inr (.inl hp)
          · exact .inl ⟨q, List.mem_append_right _ hq, hsame⟩
          · exact .inr (.inr hp)
        have hopen' : Open records (importsOf records path ++ pending) (path :: seen) := by
          intro p hp q hq
          rcases List.mem_cons.1 hp with rfl | hp
          · exact .inl ⟨q, List.mem_append_left _ hq, rfl⟩
          · exact hmoved (hopen p hp q hq)
        obtain ⟨hall, hclosed⟩ := ih hopen' (by rw [List.length_append]; omega)
        exact ⟨fun p hp => hall p (hmoved hp), hclosed⟩

/-! ## From a module -/

theorem visits_eq (records : Records) :
    records.foldr (fun r count => count + r.2.imports.length) 2 = unvisited records [] + 2 := by
  induction records with
  | nil => rfl
  | cons first rest ih =>
    have hfirst : unvisitedImports [] first = first.2.imports.length := if_neg not_among_nil
    rw [List.foldr_cons, ih, unvisited, unvisited, List.map_cons, List.sum_cons, hfirst]
    omega

/-- The walk from a module comes by what a chain of imports leads to. -/
theorem mem_reachable_iff :
    Among path (reachable records module) ↔ ∃ p, ReflTransGen (Lists records) module p ∧ p.Same path := by
  constructor
  · rintro ⟨p, hp, hsame⟩
    refine ⟨p, reach_sound (fun q hq => ?_) (fun q hq => absurd hq List.not_mem_nil) p hp, hsame⟩
    rw [List.mem_singleton.1 hq]
  · rintro ⟨p, hchain, hsame⟩
    have hopen : Open records [module] [] := fun q hq => absurd hq List.not_mem_nil
    obtain ⟨hall, hclosed⟩ := reach_complete hopen
      (n := records.foldr (fun r count => count + r.2.imports.length) 2)
      (by rw [visits_eq, List.length_singleton]; omega)
    rw [← reachable] at hall hclosed
    suffices hmem : Among p (reachable records module) from hmem.of_same hsame
    clear hsame
    induction hchain with
    | refl => exact hall module (.inl ⟨module, List.mem_singleton_self _, rfl⟩)
    | tail _ hstep ih =>
      obtain ⟨k, hk, hkp⟩ := ih
      rw [Lists, ← importsOf_congr hkp] at hstep
      exact (hclosed k hk _ hstep).resolve_left not_among_nil

end Bundler.Bundle
