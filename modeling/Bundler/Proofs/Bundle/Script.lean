import Bundler.Bundle.Script
import Mathlib.Data.List.Basic
/-!
# What scripts say

The text between the beginning and the end of a chunk's script is that of its modules as they are read, each in a
function (`body`). The beginning and the end depend on the module that is started and the files that are loaded, and on
nothing else of the chunk (`preamble_congr`, `postamble_congr`).
-/

namespace Bundler.Script

variable {t u : FileTree} {root : Path} {c c' : Chunk} {paths : List Path}

/-- The text of a compiled module. -/
def compiledText (t : FileTree) (root module : Path) : Bytes := (t.read (root.join module)).toOption.getD []

/-- The modules of a chunk, each in a function. -/
def body (text : Path → Bytes) (modules : List Path) : Bytes := modules.flatMap fun module => wrap module (text module)

/-- Modules with their sources, each in a function. -/
def wrapped (sources : List (Path × Bytes)) : Bytes := sources.flatMap fun m => wrap m.1 m.2

theorem body_congr {text text' : Path → Bytes} (h : ∀ module ∈ paths, text module = text' module) :
    body text paths = body text' paths :=
  List.flatMap_congr fun module hm => by rw [h module hm]

theorem wrapped_append (sources : List (Path × Bytes)) (m : Path × Bytes) :
    wrapped (sources ++ [m]) = wrapped sources ++ wrap m.1 m.2 := by
  rw [wrapped, List.flatMap_append, List.flatMap_singleton, wrapped]

/-- The source of a module is given by its path where each module is there once. -/
theorem wrapped_eq_body {sources : List (Path × Bytes)} {text : Path → Bytes} (h : ∀ m ∈ sources, text m.1 = m.2) :
    wrapped sources = body text (sources.map Prod.fst) := by
  rw [body, List.flatMap_map]
  exact List.flatMap_congr fun m hm => by rw [h m hm]

theorem exists_text {sources : List (Path × Bytes)} (h : (sources.map Prod.fst).Nodup) :
    ∃ text : Path → Bytes, ∀ m ∈ sources, text m.1 = m.2 := by
  induction sources with
  | nil => exact ⟨fun _ => [], fun m hm => absurd hm List.not_mem_nil⟩
  | cons first rest ih =>
    rw [List.map_cons, List.nodup_cons] at h
    obtain ⟨text, htext⟩ := ih h.2
    refine ⟨Function.update text first.1 first.2, List.forall_mem_cons.2 ⟨Function.update_self .., fun m hm => ?_⟩⟩
    rw [Function.update_of_ne, htext m hm]
    exact fun heq => h.1 (heq ▸ List.mem_map_of_mem hm)

/-! ## Reading modules -/

theorem compiledText_of_read {module : Path} {source : Bytes} (h : t.read (root.join module) = .ok source) :
    compiledText t root module = source := by
  rw [compiledText, h]
  rfl

theorem modules_nil : modules t root [] = ([], none) := rfl

-- As with resolving, reading is sealed for the length limit.
seal FileTree.read in
theorem modules_cons (first : Path) (rest : List Path) :
    modules t root (first :: rest) =
      match t.read (root.join first) with
      | .error e => ([], some (.inaccessible first e))
      | .ok source => (wrap first source ++ (modules t root rest).1, (modules t root rest).2) := rfl

theorem modules_all (h : (modules t root paths).2 = none) :
    (∀ module ∈ paths, t.read (root.join module) = .ok (compiledText t root module)) ∧
      (modules t root paths).1 = body (compiledText t root) paths := by
  induction paths with
  | nil => exact ⟨fun module hm => absurd hm List.not_mem_nil, rfl⟩
  | cons first rest ih =>
    rw [modules_cons] at h ⊢
    split at h
    · cases h
    next source hread =>
    obtain ⟨hall, hothers⟩ := ih h
    have hsource := compiledText_of_read hread
    refine ⟨List.forall_mem_cons.2 ⟨by rw [hread, hsource], hall⟩, ?_⟩
    rw [hothers, body, body, List.flatMap_cons, hsource]

theorem modules_of_read {text : Path → Bytes} (h : ∀ module ∈ paths, t.read (root.join module) = .ok (text module)) :
    modules t root paths = (body text paths, none) := by
  induction paths with
  | nil => rfl
  | cons first rest ih =>
    rw [List.forall_mem_cons] at h
    rw [modules_cons, h.1, ih h.2]
    rfl

/-! ## Around the modules -/

theorem preamble_congr (h : c.entrypoint.map (·.module) = c'.entrypoint.map (·.module)) : preamble c = preamble c' := by
  have hsome : c.entrypoint.isSome = c'.entrypoint.isSome := by simpa using congrArg Option.isSome h
  rw [preamble, preamble, hsome]

theorem postamble_congr (h : c.entrypoint.map (·.module) = c'.entrypoint.map (·.module)) (hloads : c.loads = c'.loads) :
    postamble c = postamble c' := by
  obtain ⟨start, files, loads⟩ := c
  obtain ⟨start', files', loads'⟩ := c'
  cases hloads
  cases start with
  | none =>
    cases start' with
    | none => rfl
    | some e' => cases h
  | some e =>
    cases start' with
    | none => cases h
    | some e' =>
      have hmodule : e.module = e'.module := Option.some.inj h
      simp only [postamble, startLine, hmodule]

end Bundler.Script
