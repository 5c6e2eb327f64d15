import Bundler.Proofs.Bundle.Found
/-!
# Why a search fails

A search fails for one of the specifiers that were asked for or for one of the imports that records list where it
comes by: a specifier that names no module, a record that cannot be used, or an import without a compiled file
(`misses_of_find`).
-/

namespace Bundler.Bundle

open Relation (ReflTransGen)

variable {t : FileTree} {root importer : Path} {specifiers : List String} {s : Search} {imports modules : List Path}
  {x : Except LinkError Search} {e : LinkError}

/-- A chain of imports leads from the module of some specifier to a path that is spelled like this. -/
def Reachable (t : FileTree) (root : Path) (specifiers : List String) (p : Path) : Prop :=
  ∃ specifier ∈ specifiers, ∃ m, resolve t root ⟨""⟩ specifier = .ok m ∧ ReflTransGen (ImportsAs t root) m p

/-- What a search that begins with some specifiers can fail for. -/
inductive Misses (t : FileTree) (root : Path) (specifiers : List String) : LinkError → Prop
  | unresolved {specifier : String} {error : ResolveError} (asked : specifier ∈ specifiers)
    (resolved : resolve t root ⟨""⟩ specifier = .error error) : Misses t root specifiers (.resolve error)
  | module {specifier : String} {path : Path} {error : RecordError} (asked : specifier ∈ specifiers)
    (resolved : resolve t root ⟨""⟩ specifier = .ok path)
    (record : Record.require t (root.join (Record.pathFor path)) = .error error) :
    Misses t root specifiers (.record error)
  | imported {importer i : Path} {r : Record} {error : RecordError}
    (listed : Record.require t (root.join (Record.pathFor importer)) = .ok r) (mem : i ∈ r.imports)
    (compiled : t.isFile (root.join i) = true)
    (record : Record.require t (root.join (Record.pathFor i)) = .error error)
    (reachable : Reachable t root specifiers importer) : Misses t root specifiers (.record error)
  | missing {importer i : Path} {r : Record}
    (listed : Record.require t (root.join (Record.pathFor importer)) = .ok r) (mem : i ∈ r.imports)
    (compiled : t.isFile (root.join i) = false) (reachable : Reachable t root specifiers importer) :
    Misses t root specifiers (.missingImport i importer)

namespace Search

theorem require_of_add {path : Path} (h : s.add t root path = .error e) :
    ∃ error, e = .record error ∧ Record.require t (root.join (Record.pathFor path)) = .error error := by
  unfold add at h
  split at h
  · cases h
  split at h
  · next hrecord =>
    cases h
    exact ⟨_, rfl, hrecord⟩
  · cases h

/-- The imports of a record fail for themselves. -/
theorem misses_of_addImports {r : Record} (listed : Record.require t (root.join (Record.pathFor importer)) = .ok r)
    (reachable : Reachable t root specifiers importer) (himports : ∀ i ∈ imports, i ∈ r.imports)
    (h : addImports t root importer imports s = .error e) : Misses t root specifiers e := by
  induction imports generalizing s with
  | nil => cases h
  | cons i rest ih =>
    rw [List.forall_mem_cons] at himports
    rw [addImports] at h
    split at h
    · next hfile =>
      split at h
      · next hadd =>
        cases h
        obtain ⟨error, rfl, hrecord⟩ := require_of_add hadd
        exact .imported listed himports.1 hfile hrecord reachable
      · exact ih himports.2 h
    · next hfile =>
      cases h
      exact .missing listed himports.1 (Bool.not_eq_true _ ▸ hfile) reachable

theorem misses_of_ends (hmodules : ∀ m ∈ modules, ∃ specifier ∈ specifiers, resolve t root ⟨""⟩ specifier = .ok m)
    (hs : Valid t root modules [] s) (h : Ends t root s x) (hx : x = .error e) : Misses t root specifiers e := by
  -- what the search has found so far is `Valid`, and every step keeps that
  induction h with
  | done => cases hx
  | stop hpending hadd =>
    cases hx
    -- what is pending was found, with the record that lies beside it
    obtain ⟨entry, hentry, rfl⟩ := List.mem_map.1 (hs.pending _ (hpending ▸ List.mem_cons_self))
    rw [importsOf_of_mem hs.ascending hentry rfl] at hadd
    obtain ⟨m, hm, hchain⟩ := hs.reached entry hentry
    obtain ⟨specifier, hasked, hresolve⟩ := hmodules m hm
    exact misses_of_addImports (hs.record entry hentry) ⟨specifier, hasked, m, hresolve, hchain⟩ (fun _ hi => hi) hadd
  | next hpending hadd _ ih => exact ih (hs.next hpending hadd) hx

theorem misses_of_addEntrypoints {asked : List String} (hasked : ∀ specifier ∈ asked, specifier ∈ specifiers)
    (h : addEntrypoints t root asked s = .error e) : Misses t root specifiers e := by
  induction asked generalizing s with
  | nil =>
    rw [addEntrypoints_nil] at h
    cases h
  | cons specifier rest ih =>
    rw [List.forall_mem_cons] at hasked
    rw [addEntrypoints_cons] at h
    split at h
    · next hresolve =>
      cases h
      exact .unresolved hasked.1 hresolve
    next hresolve =>
    split at h
    · next hadd =>
      cases h
      obtain ⟨error, rfl, hrecord⟩ := require_of_add hadd
      exact .module hasked.1 hresolve hrecord
    · split at h
      · next hrest =>
        cases h
        exact ih hasked.2 hrest
      · cases h

end Search

/-- A search fails for something that was asked for or is imported. -/
theorem misses_of_find (h : find t root specifiers = .error e) : Misses t root specifiers e := by
  unfold find at h
  split at h
  · next hentry =>
    cases h
    exact Search.misses_of_addEntrypoints (fun specifier => mem_keepFirst.1) hentry
  · next hentry =>
    obtain ⟨hvalid, -, hends⟩ := begin_search hentry
    obtain ⟨hspecifiers, hresolved, -⟩ := entrypoints_of_add hentry
    split at h
    · next hfollow =>
      cases h
      refine Search.misses_of_ends (fun m hm => ?_) hvalid hends hfollow
      obtain ⟨e, he, rfl⟩ := List.mem_map.1 hm
      exact ⟨e.specifier, mem_keepFirst.1 (hspecifiers ▸ List.mem_map_of_mem he), hresolved e he⟩
    · cases h

end Bundler.Bundle
