import Bundler.Proofs.Path.Normal
import Bundler.Resolve
/-!
# What the resolver answers

A module that the resolver answers is the first file that was found, or the main file of the directory that was found
(`of_resolve`). The main file is the one that the directory's description names, and the usual one if it names none
(`of_mainOf`). All of these are spelled neatly (`neat_resolve`).
-/

namespace Bundler

variable {t : FileTree} {root base dir module p q : Path} {specifier main other : String}

namespace Resolve

/-! ## What is found -/

/-- What is found is a spelling of the candidate, and it is there. -/
theorem of_probe {node : Node} (h : probe t root q = some (p, node)) :
    p ∈ spellings q ∧ t.at? (root.join p) = some node := by
  obtain ⟨p', hp', hfound⟩ := List.exists_of_findSome?_eq_some h
  obtain ⟨node', hnode, heq⟩ := Option.map_eq_some_iff.1 hfound
  cases heq
  exact ⟨hp', hnode⟩

theorem neat_candidate (base : Path) (specifier : String) : (candidate base specifier).Neat := by
  unfold candidate
  split <;> exact Path.neat_normalize _

theorem neat_spellings (h : p.Neat) : ∀ q ∈ spellings p, q.Neat := by
  intro q hq
  rcases List.mem_cons.1 hq with rfl | hq
  · exact h
  · obtain ⟨ext, hext, rfl⟩ := List.mem_map.1 hq
    have hdot : ∀ ext ∈ scriptExtensions, '/' ∉ ("." ++ ext).toList ∧ 2 < ("." ++ ext).toList.length := by decide
    rw [String.append_assoc]
    exact h.append (hdot ext hext).1 (hdot ext hext).2

/-! ## Main files -/

/-- The description of the package in a directory names a main file. -/
def NamesMain (t : FileTree) (root dir : Path) (main : String) : Prop :=
  ∃ content, t.read (root.join (dir.join packageFile)) = .ok content ∧ mainOfPackage content = .ok (some main)

theorem NamesMain.unique (h : NamesMain t root dir main) (h' : NamesMain t root dir other) : main = other := by
  obtain ⟨content, hread, hmain⟩ := h
  obtain ⟨content', hread', hmain'⟩ := h'
  rw [hread] at hread'
  cases hread'
  rw [hmain] at hmain'
  cases hmain'
  rfl

theorem of_mainOf (h : mainOf t root dir = .ok p) :
    (∃ main, NamesMain t root dir main ∧ p = (dir.join ⟨main⟩).normalize) ∨
      (∀ main, ¬ NamesMain t root dir main) ∧ p = (dir.join defaultMain).normalize := by
  unfold mainOf at h
  dsimp only at h
  split at h
  next content hread =>
    split at h
    · cases h
    · next main hmain =>
      cases h
      cases main with
      | some main => exact .inl ⟨main, ⟨content, hread, hmain⟩, rfl⟩
      | none =>
        refine .inr ⟨?_, rfl⟩
        rintro main ⟨content', hread', hmain'⟩
        rw [hread] at hread'
        cases hread'
        rw [hmain] at hmain'
        cases hmain'
  next hread =>
    cases h
    refine .inr ⟨?_, rfl⟩
    rintro main ⟨content, hread', -⟩
    rw [hread] at hread'
    cases hread'
  next => cases h

end Resolve

open Resolve

/-! ## What is answered -/

theorem of_resolve (h : resolve t root base specifier = .ok module) :
    (∃ content, probe t root (candidate base specifier) = some (module, .file content)) ∨
      ∃ dir, probe t root (candidate base specifier) = some (dir, .directory) ∧ mainOf t root dir = .ok module := by
  unfold resolve at h
  split at h
  next => cases h
  next dir hdir => exact .inr ⟨dir, hdir, h⟩
  next content hfile =>
    cases h
    exact .inl ⟨content, hfile⟩

theorem resolve_of_file (hcandidate : candidate base specifier = p) (h : t.isFile (root.join p) = true) :
    resolve t root base specifier = .ok p := by
  obtain ⟨content, hfile⟩ : ∃ content, t.at? (root.join p) = some (.file content) := by
    unfold FileTree.isFile at h
    split at h
    · next content hfile => exact ⟨content, hfile⟩
    · cases h
  have hprobe : probe t root p = some (p, .file content) := by
    rw [probe, spellings, List.findSome?_cons, hfile, Option.map_some]
  unfold resolve
  rw [hcandidate, hprobe]

/-- What a specifier is resolved to has no dot or slash too many. -/
theorem neat_resolve (h : resolve t root base specifier = .ok module) : module.Neat := by
  rcases of_resolve h with ⟨content, hfile⟩ | ⟨dir, -, hmain⟩
  · exact neat_spellings (neat_candidate base specifier) module (of_probe hfile).1
  · rcases of_mainOf hmain with ⟨main, -, rfl⟩ | ⟨-, rfl⟩ <;> exact Path.neat_normalize _

end Bundler
