import Bundler.Bundle.Find
import Bundler.Proofs.FileTree.Place
import Bundler.Proofs.Path
import Bundler.Proofs.Record
import Bundler.Proofs.Sorted
/-!
# What a search comes upon

A search only adds files, each with the record that lies beside it (`Search.Extends`), and it adds the
module of every entrypoint. So a bundle has the records of its files (`find_record`) and a file for
each of its entrypoints (`find_module`), and none of its paths has a NUL (`find_path`, `find_start`).
-/

namespace Bundler.Bundle

open FileTree

variable {t : FileTree} {root path importer : Path} {s s' s'' : Search} {b : Bundle}

/-- A file was found with a spelling of this path. -/
def Search.Has (s : Search) (path : Path) : Prop := ∃ entry ∈ s.records, path.Same entry.1

/-- A search has gone on: what was found is still there, and what is new has its record. -/
structure Search.Extends (t : FileTree) (root : Path) (s s' : Search) : Prop where
  keeps : ∀ entry ∈ s.records, entry ∈ s'.records
  new : ∀ entry ∈ s'.records, entry ∈ s.records ∨ Record.require t (root.join (Record.pathFor entry.1)) = .ok entry.2

namespace Search

theorem Extends.refl (s : Search) : Extends t root s s := ⟨fun _ h => h, fun _ h => .inl h⟩

theorem Extends.trans (h : Extends t root s s') (h' : Extends t root s' s'') : Extends t root s s'' where
  keeps entry hmem := h'.keeps entry (h.keeps entry hmem)
  new entry hmem := by
    rcases h'.new entry hmem with hmem | hrecord
    · exact h.new entry hmem
    · exact .inr hrecord

theorem Extends.has (h : Extends t root s s') (hp : s.Has path) : s'.Has path := by
  obtain ⟨entry, hmem, hsame⟩ := hp
  exact ⟨entry, h.keeps entry hmem, hsame⟩

theorem extends_add (h : s.add t root path = .ok s') : Extends t root s s' ∧ s'.Has path := by
  unfold add at h
  split at h
  · next record hfound =>
    cases h
    obtain ⟨k, hmem, heq⟩ := Sorted.exists_of_find? hfound
    exact ⟨.refl _, (k, record), hmem, Path.compare_eq_iff.1 heq⟩
  · next hnone =>
    split at h
    · cases h
    · next record hrecord =>
      cases h
      refine ⟨⟨fun entry hmem => (Sorted.mem_insert hnone).2 (.inr hmem), fun entry hmem => ?_⟩,
        (path, record), (Sorted.mem_insert hnone).2 (.inl rfl), rfl⟩
      rcases (Sorted.mem_insert hnone).1 hmem with rfl | hmem
      · exact .inr hrecord
      · exact .inl hmem

theorem extends_addImports {imports : List Path} (h : addImports t root importer imports s = .ok s') :
    Extends t root s s' := by
  induction imports generalizing s with
  | nil =>
    cases h
    exact .refl _
  | cons i rest ih =>
    rw [addImports] at h
    split at h
    · split at h
      · cases h
      · next hadd => exact (extends_add hadd).1.trans (ih h)
    · cases h

theorem extends_follow {n : Nat} (h : s.follow t root n = .ok s') : Extends t root s s' := by
  induction n generalizing s with
  | zero =>
    cases h
    exact .refl _
  | succ n ih =>
    rw [follow] at h
    split at h
    · cases h
      exact .refl _
    · next pending _ =>
      dsimp only at h
      split at h
      · cases h
      · next hadd =>
        -- taking a path off the pending ones leaves the records
        have hrest : Extends t root s { s with pending } := ⟨fun _ h => h, fun _ h => .inl h⟩
        exact (hrest.trans (extends_addImports hadd)).trans (ih h)

theorem addEntrypoints_nil (s : Search) : addEntrypoints t root [] s = .ok ([], s) := rfl

-- Resolving is sealed because the length limit for paths would be unfolded in unary.
seal resolve in
theorem addEntrypoints_cons (specifier : String) (rest : List String) (s : Search) :
    addEntrypoints t root (specifier :: rest) s =
      match resolve t root ⟨""⟩ specifier with
      | .error e => .error (.resolve e)
      | .ok module =>
        match s.add t root module with
        | .error e => .error e
        | .ok s =>
          match addEntrypoints t root rest s with
          | .error e => .error e
          | .ok (entrypoints, s) => .ok (⟨specifier, module⟩ :: entrypoints, s) := rfl

theorem extends_addEntrypoints {specifiers : List String} {entrypoints : List Entrypoint}
    (h : addEntrypoints t root specifiers s = .ok (entrypoints, s')) :
    Extends t root s s' ∧ ∀ e ∈ entrypoints, s'.Has e.module := by
  induction specifiers generalizing s entrypoints with
  | nil =>
    rw [addEntrypoints_nil, Except.ok.injEq, Prod.mk.injEq] at h
    obtain ⟨rfl, rfl⟩ := h
    exact ⟨.refl _, fun _ he => absurd he List.not_mem_nil⟩
  | cons specifier rest ih =>
    rw [addEntrypoints_cons] at h
    split at h
    · cases h
    · split at h
      · cases h
      · next hadd =>
        split at h
        · cases h
        · next hrest =>
          cases h
          obtain ⟨hfirst, hhas⟩ := extends_add hadd
          obtain ⟨hothers, hall⟩ := ih hrest
          exact ⟨hfirst.trans hothers, List.forall_mem_cons.2 ⟨hothers.has hhas, hall⟩⟩

end Search

/-! ## Bundles -/

variable {specifiers : List String}

/-- A bundle comes from a search that began with nothing. -/
theorem find_search (h : find t root specifiers = .ok b) :
    ∃ s, Search.Extends t root ⟨[], []⟩ s ∧ (∀ e ∈ b.entrypoints, s.Has e.module) ∧
      b.files = markFiles s.records b.entrypoints := by
  unfold find at h
  split at h
  · cases h
  · next hentry =>
    split at h
    · cases h
    · next s hfollow =>
      cases h
      obtain ⟨hfirst, hhas⟩ := Search.extends_addEntrypoints hentry
      have hrest := Search.extends_follow hfollow
      exact ⟨s, hfirst.trans hrest, fun e he => hrest.has (hhas e he), rfl⟩

/-- Each file of a bundle comes with the record that lies beside it. -/
theorem find_record (h : find t root specifiers = .ok b) {f : Path × BundleFile} (hf : f ∈ b.files) :
    Record.require t (root.join (Record.pathFor f.1)) = .ok f.2.record := by
  obtain ⟨s, hs, -, hfiles⟩ := find_search h
  rw [hfiles, markFiles, List.mem_map] at hf
  obtain ⟨entry, hmem, rfl⟩ := hf
  exact (hs.new entry hmem).resolve_left List.not_mem_nil

/-- The module of an entrypoint is one of the files. -/
theorem find_module (h : find t root specifiers = .ok b) {e : Entrypoint} (he : e ∈ b.entrypoints) :
    ∃ f ∈ b.files, e.module.Same f.1 := by
  obtain ⟨s, -, hhas, hfiles⟩ := find_search h
  obtain ⟨entry, hmem, hsame⟩ := hhas e he
  rw [hfiles]
  exact ⟨_, List.mem_map_of_mem hmem, hsame⟩

/-- The paths of a bundle denote files. -/
theorem find_path (h : find t root specifiers = .ok b) {f : Path × BundleFile} (hf : f ∈ b.files) :
    '\x00' ∉ f.1.text.toList := fun hnul => by
  obtain ⟨content, hread, -⟩ := Record.read_of_require (find_record h hf)
  refine nul_notMem_of_read hread ?_
  obtain ⟨front, hfront⟩ := Path.join_text root (Record.pathFor f.1)
  rw [hfront, Record.pathFor]
  simp [hnul]

theorem find_start (h : find t root specifiers = .ok b) {e : Entrypoint} (he : e ∈ b.entrypoints) :
    '\x00' ∉ e.module.text.toList := by
  obtain ⟨f, hf, hsame⟩ := find_module h he
  rw [Path.mem_text_of_same (by decide) (by decide) hsame]
  exact find_path h hf

end Bundler.Bundle
