import Bundler.Proofs.Compile.Alone
import Bundler.Proofs.FileTree.Copy
/-!
# The transpiler that copies

Where a source is not its own compiled file, copying is what is asked of a transpiler (`exists_acts_of_copy`).
-/

namespace Bundler.Compiler

open FileTree
open Bundler.Path (Component)

variable {c : Compiler} {t u : FileTree} {file : SourceFile} {cs : List Component} {name : String} {content : Bytes}

theorem transpile_of_copy (hget : c.transpilers.get (source file) = .copy) (t : FileTree) :
    c.transpile file t = match t.copy (c.root.join (source file)) (c.root.join (c.destination file)) with
      | .error e =>
        (t, .error (.error (.copy (c.root.join (source file)) (c.root.join (c.destination file)) e)))
      | .ok t' => (t', .ok ()) := by
  rw [transpile, hget]
  rfl

/-- Where it succeeds, the compiled file is a copy of the source. -/
theorem copy_of_transpile (hget : c.transpilers.get (source file) = .copy) (h : c.transpile file t = (u, .ok ())) :
    t.copy (c.root.join (source file)) (c.root.join (c.destination file)) = .ok u := by
  rw [transpile_of_copy hget] at h
  split at h
  · cases h
  next hcopy =>
  cases h
  exact hcopy

/-- The compiled file has the bytes of the source. -/
theorem node?_of_transpile (hget : c.transpilers.get (source file) = .copy)
    (hne : c.sourcePlace file ≠ c.target file) (ho : c.Orderly file t)
    (hread : t.read (c.root.join (source file)) = .ok content) (h : c.transpile file t = (u, .ok ())) :
    u.node? (c.target file) = some (.file content) :=
  (touched_copy hread ho.target hne (copy_of_transpile hget h)).1

theorem tidy_of_copy (hget : c.transpilers.get (source file) = .copy) (hne : c.sourcePlace file ≠ c.target file) :
    c.Tidy file := by
  intro t t' r content ho hread h
  rw [transpile_of_copy hget] at h
  split at h
  · cases h
    exact .refl ..
  · next hcopy =>
    cases h
    exact (touched_copy hread ho.target hne hcopy).2

/-- Where its directory is there, whether a compiled file can be written depends on what it was. -/
theorem write_target_congr (hf : c.Filed file cs name) (ht : ∀ k ∈ c.way file, t.node? k = some .directory)
    (hu : ∀ k ∈ c.way file, u.node? k = some .directory) (hsame : u.node? (c.target file) = t.node? (c.target file))
    (content : Bytes) :
    (t.write (c.root.join (c.destination file)) content).map (fun _ => ()) =
      (u.write (c.root.join (c.destination file)) content).map fun _ => () := by
  apply write_congr
  intro k hk
  rcases (mem_trail_concat hf.compiled).1 hk with hk | heq
  · rw [← hf.way_eq] at hk
    exact .of_directory (ht k hk) (hu k hk)
  · rw [heq]
    exact .of_eq hsame

/-- What the compiled file was tells whether it can be written, where its directory is there. -/
theorem exists_answer (hf : c.Filed file cs name) (old : Option Node) :
    ∃ answer : Except IoError Unit, ∀ (t : FileTree) (content : Bytes),
      (∀ k ∈ c.way file, t.node? k = some .directory) → t.node? (c.target file) = old →
        (t.write (c.root.join (c.destination file)) content).map (fun _ => ()) = answer := by
  by_cases hthere : ∃ t : FileTree, (∀ k ∈ c.way file, t.node? k = some .directory) ∧ t.node? (c.target file) = old
  · obtain ⟨t₀, hway₀, hold₀⟩ := hthere
    refine ⟨(t₀.write (c.root.join (c.destination file)) []).map fun _ => (), fun t content hway hold => ?_⟩
    rw [write_target_congr hf hway hway₀ (hold₀.trans hold.symm)]
    cases hwrite : t₀.write (c.root.join (c.destination file)) [] with
    | error e => rw [write_error hwrite]
    | ok t₁ => rw [write_of_write hwrite]; rfl
  · exact ⟨.ok (), fun t content hway hold => absurd ⟨t, hway, hold⟩ hthere⟩

/-- Copying writes the compiled file only, and what comes of it depends on the source and on what the compiled
file was. -/
theorem exists_acts_of_copy (hget : c.transpilers.get (source file) = .copy)
    (hne : c.sourcePlace file ≠ c.target file) (hf : c.Filed file cs name) : ∃ act, c.Acts file act := by
  choose answer hanswer using exists_answer (c := c) hf
  refine ⟨fun content old => match answer old with
    | .error e => (old, .error (.copy (c.root.join (source file)) (c.root.join (c.destination file)) e))
    | .ok () => (some (.file content), .ok ()), tidy_of_copy hget hne, ?_⟩
  intro t t' r content ho hway hread h
  have hwrite := hanswer _ t content hway rfl
  rw [transpile_of_copy hget] at h
  cases hmade : t.write (c.root.join (c.destination file)) content with
  | error e =>
    rw [copy_error hread hmade] at h
    cases h
    rw [hmade] at hwrite
    have hend : answer (t.node? (c.target file)) = .error e := hwrite.symm
    rw [hend]
    dsimp only
    exact ⟨rfl, rfl⟩
  | ok t₁ =>
    obtain ⟨u, hcopy, hnode, -⟩ := copy_ok hread ho.target hne hmade
    rw [hcopy] at h
    cases h
    rw [hmade] at hwrite
    have hend : answer (t.node? (c.target file)) = .ok () := hwrite.symm
    rw [hend]
    dsimp only
    exact ⟨hnode, rfl⟩

end Bundler.Compiler
