import Bundler.Proofs.Bundle.Reach
import Bundler.Proofs.Bundle.Search
import Bundler.Proofs.FileTree.Place
import Mathlib.Data.List.Perm.Subperm
/-!
# Following imports to the end

A search keeps what it found in order (`Search.Valid`): each file has its own record, was reached by a chain
of imports from one of the modules, and has its imports followed unless it is pending. Whatever the imports
are, it ends (`Search.ends_follow`): each file that is followed was pending, and becomes pending only when it
is found, and every path that can be found is a module or listed by some record of the tree.
-/

namespace Bundler.Bundle

open Relation (ReflTransGen)

variable {t : FileTree} {root path importer : Path} {modules held imports : List Path} {s s' : Search}
  {x : Except LinkError Search}

/-- The record that lies beside one path lists a spelling of the other. -/
def Imports (t : FileTree) (root p q : Path) : Prop :=
  ∃ r, Record.require t (root.join (Record.pathFor p)) = .ok r ∧ ∃ i ∈ r.imports, i.Same q

/-- The record that lies beside one path lists the other, spelled like this. -/
def ImportsAs (t : FileTree) (root p q : Path) : Prop :=
  ∃ r, Record.require t (root.join (Record.pathFor p)) = .ok r ∧ q ∈ r.imports

theorem imports_of_importsAs {p q : Path} (h : ImportsAs t root p q) : Imports t root p q := by
  obtain ⟨r, hr, hq⟩ := h
  exact ⟨r, hr, q, hq, rfl⟩

/-! ## All imports of a tree -/

/-- The imports that an entry lists, if it is a record. -/
def importsAt : Node → List Path
  | .directory => []
  | .file content =>
    match Record.decode content with
    | .error _ => []
    | .ok r => r.imports

theorem importCount_eq (t : FileTree) : importCount t = (t.entries.flatMap fun entry => importsAt entry.2).length := by
  unfold importCount
  induction t.entries with
  | nil => rfl
  | cons first rest ih =>
    rw [List.foldr_cons, ih, List.flatMap_cons, List.length_append, Nat.add_comm]
    congr 1
    cases first.2 with
    | directory => rfl
    | file content =>
      rw [importsAt]
      dsimp only
      cases Record.decode content <;> rfl

theorem mem_listed {p : Path} {r : Record} (h : Record.require t p = .ok r) (hmem : path ∈ r.imports) :
    path ∈ t.entries.flatMap fun entry => importsAt entry.2 := by
  obtain ⟨content, hread, hdecode⟩ := Record.read_of_require h
  have hnode := FileTree.node?_of_read hread
  unfold FileTree.node? at hnode
  split at hnode
  · cases hnode
  · obtain ⟨before, behind, hentries, -⟩ := List.lookup_eq_some_iff.1 hnode
    refine List.mem_flatMap.2 ⟨_, hentries ▸ List.mem_append_right before List.mem_cons_self, ?_⟩
    rw [importsAt, hdecode]
    exact hmem

/-! ## The invariant -/

namespace Search

/-- What a search found is in order. The imports of what is held are being followed. -/
structure Valid (t : FileTree) (root : Path) (modules held : List Path) (s : Search) : Prop where
  ascending : Sorted.Ascending Path.compare s.records
  record : ∀ entry ∈ s.records, Record.require t (root.join (Record.pathFor entry.1)) = .ok entry.2
  pending : ∀ path ∈ s.pending, path ∈ s.records.map Prod.fst
  followed : ∀ entry ∈ s.records, entry.1 ∈ s.pending ∨ entry.1 ∈ held ∨
    ∀ i ∈ entry.2.imports, t.isFile (root.join i) = true ∧ s.Has i
  listed : ∀ entry ∈ s.records, entry.1 ∈ modules ∨ t.isFile (root.join entry.1) = true ∧
    ∃ importer ∈ s.records, entry.1 ∈ importer.2.imports
  reached : ∀ entry ∈ s.records, ∃ m ∈ modules, ReflTransGen (ImportsAs t root) m entry.1

theorem keys_of_add (h : s.add t root path = .ok s') : ∀ entry ∈ s'.records, entry ∈ s.records ∨ entry.1 = path := by
  unfold Search.add at h
  split at h
  · cases h
    exact fun _ hentry => .inl hentry
  next hnone =>
  split at h
  · cases h
  · cases h
    intro entry hentry
    exact ((Sorted.mem_insert hnone).1 hentry).symm.imp_right (congrArg Prod.fst)

theorem valid_nil (t : FileTree) (root : Path) (modules : List Path) : Valid t root modules [] ⟨[], []⟩ where
  ascending := List.Pairwise.nil
  record _ h := absurd h List.not_mem_nil
  pending _ h := absurd h List.not_mem_nil
  followed _ h := absurd h List.not_mem_nil
  listed _ h := absurd h List.not_mem_nil
  reached _ h := absurd h List.not_mem_nil

/-- A path that is found may be a module, or a file that something found imports. -/
theorem Valid.add (hs : Valid t root modules held s)
    (hlisted : path ∈ modules ∨ t.isFile (root.join path) = true ∧ ∃ importer ∈ s.records, path ∈ importer.2.imports)
    (h : s.add t root path = .ok s') : Valid t root modules held s' := by
  have hextends := (extends_add h).1
  unfold Search.add at h
  split at h
  · cases h
    exact hs
  next hnone =>
  split at h
  · cases h
  next record hrecord =>
  cases h
  have hnew (entry : Path × Record) : entry ∈ Sorted.insert Path.compare path record s.records ↔
      entry = (path, record) ∨ entry ∈ s.records := Sorted.mem_insert hnone
  refine ⟨Sorted.ascending_insert _ _ _ hs.ascending, fun entry hentry => ?_, fun p hp => ?_, fun entry hentry => ?_,
    fun entry hentry => ?_, fun entry hentry => ?_⟩
  · rcases (hnew entry).1 hentry with rfl | hentry
    · exact hrecord
    · exact hs.record entry hentry
  · rcases List.mem_cons.1 hp with rfl | hp
    · exact List.mem_map.2 ⟨_, (hnew _).2 (.inl rfl), rfl⟩
    · obtain ⟨entry, hentry, rfl⟩ := List.mem_map.1 (hs.pending p hp)
      exact List.mem_map_of_mem ((hnew entry).2 (.inr hentry))
  · rcases (hnew entry).1 hentry with rfl | hentry
    · exact .inl List.mem_cons_self
    · refine (hs.followed entry hentry).imp (List.mem_cons_of_mem _) (Or.imp_right fun hall i hi => ?_)
      exact (hall i hi).imp_right hextends.has
  · have hmore {p : Path} : (∃ importer ∈ s.records, p ∈ importer.2.imports) →
        ∃ importer ∈ Sorted.insert Path.compare path record s.records, p ∈ importer.2.imports :=
      fun ⟨importer, hmem, hp⟩ => ⟨importer, (hnew importer).2 (.inr hmem), hp⟩
    rcases (hnew entry).1 hentry with rfl | hentry
    · exact hlisted.imp_right fun h => h.imp_right hmore
    · exact (hs.listed entry hentry).imp_right fun h => h.imp_right hmore
  · rcases (hnew entry).1 hentry with rfl | hentry
    · rcases hlisted with hmodule | ⟨-, importer, himporter, hpath⟩
      · exact ⟨path, hmodule, .refl⟩
      · obtain ⟨m, hm, hchain⟩ := hs.reached importer himporter
        exact ⟨m, hm, hchain.tail ⟨_, hs.record importer himporter, hpath⟩⟩
    · exact hs.reached entry hentry

theorem Valid.addImports {entry : Path × Record} (hs : Valid t root modules held s) (hentry : entry ∈ s.records)
    (himports : ∀ i ∈ imports, i ∈ entry.2.imports) (h : addImports t root importer imports s = .ok s') :
    Valid t root modules held s' ∧ ∀ i ∈ imports, t.isFile (root.join i) = true ∧ s'.Has i := by
  induction imports generalizing s with
  | nil =>
    cases h
    exact ⟨hs, fun _ hi => absurd hi List.not_mem_nil⟩
  | cons i rest ih =>
    rw [List.forall_mem_cons] at himports
    rw [Search.addImports] at h
    split at h
    · next hfile =>
      split at h
      · cases h
      · next hadd =>
        obtain ⟨hextends, hhas⟩ := extends_add hadd
        obtain ⟨hvalid, hall⟩ := ih (hs.add (.inr ⟨hfile, entry, hentry, himports.1⟩) hadd)
          (hextends.keeps entry hentry) himports.2 h
        exact ⟨hvalid, List.forall_mem_cons.2 ⟨⟨hfile, (extends_addImports h).has hhas⟩, hall⟩⟩
    · cases h

theorem Valid.addEntrypoints {specifiers : List String} {entrypoints : List Entrypoint}
    (hs : Valid t root modules held s) (h : addEntrypoints t root specifiers s = .ok (entrypoints, s'))
    (hmodules : ∀ e ∈ entrypoints, e.module ∈ modules) : Valid t root modules held s' := by
  induction specifiers generalizing s entrypoints with
  | nil =>
    rw [addEntrypoints_nil, Except.ok.injEq, Prod.mk.injEq] at h
    exact h.2 ▸ hs
  | cons specifier rest ih =>
    rw [addEntrypoints_cons] at h
    split at h
    · cases h
    · split at h
      · cases h
      · next hadd =>
        split at h
        · cases h
        · next hrest =>
          cases h
          rw [List.forall_mem_cons] at hmodules
          exact ih (hs.add (.inl hmodules.1) hadd) hrest hmodules.2

/-- Taking a path off the pending ones, following its imports, and going on. -/
theorem Valid.next {pending : List Path} (hs : Valid t root modules [] s) (hpending : s.pending = path :: pending)
    (h : Search.addImports t root path (importsOf s.records path) { s with pending } = .ok s') :
    Valid t root modules [] s' := by
  have hhold : Valid t root modules [path] { s with pending } :=
    { hs with
      pending := fun p hp => hs.pending p (hpending ▸ List.mem_cons_of_mem _ hp)
      followed := fun entry hentry => by
        rcases hs.followed entry hentry with hp | hp | hall
        · rw [hpending, List.mem_cons] at hp
          exact hp.symm.imp_right fun heq => .inl (List.mem_singleton.2 heq)
        · cases hp
        · exact .inr (.inr hall) }
  obtain ⟨⟨_, r⟩, hentry, rfl⟩ := List.mem_map.1 (hs.pending _ (hpending ▸ List.mem_cons_self))
  rw [importsOf_of_mem hs.ascending hentry rfl] at h
  obtain ⟨hvalid, hall⟩ := hhold.addImports hentry (fun _ hi => hi) h
  refine { hvalid with followed := fun entry' hentry' => ?_ }
  rcases hvalid.followed entry' hentry' with hp | hp | hall'
  · exact .inl hp
  · -- the record of what is held is the one whose imports were followed
    have hrecord := hvalid.record entry' hentry'
    rw [List.mem_singleton.1 hp, hs.record _ hentry, Except.ok.injEq] at hrecord
    exact .inr (.inr (hrecord ▸ hall))
  · exact .inr (.inr hall')

/-! ## The end -/

/-- How a search goes on to its end: with the pending paths one after the other, until none is left or the
imports of one cannot be added. -/
inductive Ends (t : FileTree) (root : Path) : Search → Except LinkError Search → Prop
  | done {s : Search} (h : s.pending = []) : Ends t root s (.ok s)
  | stop {s : Search} {path : Path} {pending : List Path} {e : LinkError} (h : s.pending = path :: pending)
      (hadd : addImports t root path (importsOf s.records path) { s with pending } = .error e) :
      Ends t root s (.error e)
  | next {s s' : Search} {path : Path} {pending : List Path} {x : Except LinkError Search}
      (h : s.pending = path :: pending)
      (hadd : addImports t root path (importsOf s.records path) { s with pending } = .ok s')
      (hrest : Ends t root s' x) : Ends t root s x

theorem Valid.follows (hs : Valid t root modules [] s) (hdone : s.pending = []) :
    ∀ entry ∈ s.records, ∀ i ∈ entry.2.imports, t.isFile (root.join i) = true ∧ s.Has i := by
  intro entry hentry
  refine ((hs.followed entry hentry).resolve_left ?_).resolve_left List.not_mem_nil
  rw [hdone]
  exact List.not_mem_nil

/-- More steps than a search needs change nothing. -/
theorem follow_of_le {n k : Nat} (h : s.follow t root n = .ok s') (hdone : s'.pending = []) (hle : n ≤ k) :
    s.follow t root k = .ok s' := by
  induction n generalizing s k with
  | zero =>
    cases h
    cases k with
    | zero => rfl
    | succ k => rw [follow, hdone]
  | succ n ih =>
    cases k with
    | zero => omega
    | succ k =>
      unfold follow at h ⊢
      split at h
      · exact h
      next path pending hpending =>
      dsimp only at h ⊢
      split at h
      · cases h
      · exact ih h (Nat.le_of_succ_le_succ hle)

/-- A search that ends without an error has followed everything. -/
theorem Ends.valid (hs : Valid t root modules [] s) (h : Ends t root s (.ok s')) :
    Valid t root modules [] s' ∧ s'.pending = [] := by
  generalize hx : (Except.ok s' : Except LinkError Search) = x at h
  induction h with
  | done h => cases hx; exact ⟨hs, h⟩
  | stop h hadd => cases hx
  | next h hadd _ ih => exact ih (hs.next h hadd) hx

/-- A path becomes pending when it is found. -/
theorem length_add (h : s.add t root path = .ok s') :
    s'.pending.length + s.records.length = s.pending.length + s'.records.length := by
  unfold Search.add at h
  split at h
  · cases h
    rfl
  next hnone =>
  split at h
  · cases h
  · cases h
    rw [Sorted.length_insert hnone, List.length_cons]
    omega

theorem length_addImports (h : addImports t root importer imports s = .ok s') :
    s'.pending.length + s.records.length = s.pending.length + s'.records.length := by
  induction imports generalizing s with
  | nil => cases h; rfl
  | cons i rest ih =>
    rw [Search.addImports] at h
    split at h
    · split at h
      · cases h
      · next hadd =>
        have hfirst := length_add hadd
        have hrest := ih h
        omega
    · cases h

theorem length_addEntrypoints {specifiers : List String} {entrypoints : List Entrypoint}
    (h : addEntrypoints t root specifiers s = .ok (entrypoints, s')) :
    s'.pending.length + s.records.length = s.pending.length + s'.records.length := by
  induction specifiers generalizing s entrypoints with
  | nil =>
    rw [addEntrypoints_nil, Except.ok.injEq, Prod.mk.injEq] at h
    rw [h.2]
  | cons specifier rest ih =>
    rw [addEntrypoints_cons] at h
    split at h
    · cases h
    · split at h
      · cases h
      · next hadd =>
        split at h
        · cases h
        · next hrest =>
          cases h
          have hfirst := length_add hadd
          have hrest := ih hrest
          omega

/-- What is found is a module or listed by a record of the tree. -/
theorem Valid.length_le (hs : Valid t root modules held s) : s.records.length ≤ modules.length + importCount t := by
  have hsub : s.records.map Prod.fst ⊆ modules ++ t.entries.flatMap fun entry => importsAt entry.2 := by
    intro p hp
    obtain ⟨entry, hentry, rfl⟩ := List.mem_map.1 hp
    rcases hs.listed entry hentry with hm | ⟨-, importer, himporter, hlisted⟩
    · exact List.mem_append_left _ hm
    · exact List.mem_append_right _ (mem_listed (hs.record importer himporter) hlisted)
  have hle := (List.subperm_of_subset (Sorted.nodup_of_ascending hs.ascending) hsub).length_le
  rwa [List.length_map, List.length_append, ← importCount_eq] at hle

/-- Enough steps bring a search to its end. -/
theorem ends_follow {n : Nat} (hs : Valid t root modules [] s)
    (hn : s.pending.length + (modules.length + importCount t) ≤ n + s.records.length) :
    Ends t root s (s.follow t root n) := by
  induction n generalizing s with
  | zero =>
    have hle := hs.length_le
    exact .done (List.length_eq_zero_iff.1 (by omega))
  | succ n ih =>
    unfold follow
    split
    · next hpending => exact .done hpending
    next path pending hpending =>
    dsimp only
    split
    · next hadd => exact .stop hpending hadd
    · next s' hadd =>
      refine .next hpending hadd (ih (hs.next hpending hadd) ?_)
      have hlength := length_addImports hadd
      rw [hpending, List.length_cons] at hn
      dsimp only at hlength
      omega

end Search
end Bundler.Bundle
