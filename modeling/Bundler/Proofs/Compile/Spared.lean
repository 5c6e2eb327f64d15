import Bundler.Proofs.Bundle.Found
import Bundler.Proofs.Compile.Frame
import Bundler.Proofs.FileTree.Inside
/-!
# Files that are compiled beside each other

Compiling one of some files leaves directories, all sources and the outputs of the others alone (`Spares`), if its
transpiler does so (`Considerate`) and no output of a file is a source or an output of another file (`Free`). What a
file was made stays then, while the others are compiled (`Made.spared`).
-/

namespace Bundler.Compiler

open FileTree

variable {c : Compiler} {files : List SourceFile} {f g : SourceFile} {t u v : FileTree} {l : Location} {p : Path}
  {content : Bytes} {imports : List Path}

/-! ## What is left alone -/

/-- Work on one of some files leaves directories, all sources and the outputs of the other files alone, but for
directories that it makes where nothing was; and no output gets a second name. -/
structure Spares (c : Compiler) (files : List SourceFile) (f : SourceFile) (t u : FileTree) : Prop where
  directory : ∀ l, t.node? l = some .directory → u.node? l = some .directory
  kept : ∀ g ∈ files, ∀ l, l = c.sourcePlace g ∨ g ≠ f ∧ l ∈ c.outputs g →
    u.node? l = t.node? l ∨ t.node? l = none ∧ u.node? l = some .directory
  orderly : (∀ g ∈ files, c.Orderly g t) → ∀ g ∈ files, c.Orderly g u

namespace Spares

theorem refl (c : Compiler) (files : List SourceFile) (f : SourceFile) (t : FileTree) : c.Spares files f t t :=
  ⟨fun _ h => h, fun _ _ _ _ => .inl rfl, fun h => h⟩

theorem trans (h : c.Spares files f t u) (h' : c.Spares files f u v) : c.Spares files f t v where
  directory l hl := h'.directory l (h.directory l hl)
  kept g hg l hl := by
    rcases h.kept g hg l hl with heq | ⟨hnone, hdir⟩
    · rw [← heq]
      exact h'.kept g hg l hl
    · exact .inr ⟨hnone, h'.directory l hdir⟩
  orderly ho := h'.orderly (h.orderly ho)

/-- A file in one of these places stays. -/
theorem file (h : c.Spares files f t u) (hg : g ∈ files) (hl : l = c.sourcePlace g ∨ g ≠ f ∧ l ∈ c.outputs g)
    (hfile : t.node? l = some (.file content)) : u.node? l = some (.file content) := by
  rcases h.kept g hg l hl with heq | ⟨hnone, -⟩
  · rw [heq, hfile]
  · rw [hfile] at hnone
    cases hnone

/-- No file is made in one of these places. -/
theorem not_file (h : c.Spares files f t u) (hg : g ∈ files) (hl : l = c.sourcePlace g ∨ g ≠ f ∧ l ∈ c.outputs g)
    (hfile : t.node? l ≠ some (.file content)) : u.node? l ≠ some (.file content) := by
  rcases h.kept g hg l hl with heq | ⟨-, hdir⟩
  · rwa [heq]
  · rw [hdir]
    intro heq
    cases heq

/-- What was read there is read as before. -/
theorem read (h : c.Spares files f t u) (hg : g ∈ files)
    (hp : place p = c.sourcePlace g ∨ g ≠ f ∧ place p ∈ c.outputs g) (hread : t.read p = .ok content) :
    u.read p = .ok content :=
  read_of_directories h.directory (h.file hg hp (node?_of_read hread)) hread

end Spares

/-- The outputs of different files are different, and none of them is a source. -/
structure Free (c : Compiler) (files : List SourceFile) : Prop where
  source : ∀ f ∈ files, ∀ g ∈ files, c.sourcePlace g ∉ c.outputs f
  output : ∀ f ∈ files, ∀ g ∈ files, c.Meet f g → f = g

/-- What is asked of the transpiler of one of some files: wherever it succeeds, it makes a file of the compiled one, and
spares the other files. -/
structure Considerate (c : Compiler) (files : List SourceFile) (f : SourceFile) : Prop where
  makes : ∀ t u content, (∀ g ∈ files, c.Orderly g t) → t.read (c.root.join (source f)) = .ok content →
    c.transpile f t = (u, .ok ()) → ∃ text, u.node? (c.target f) = some (.file text)
  spares : ∀ t u content, (∀ g ∈ files, c.Orderly g t) → t.read (c.root.join (source f)) = .ok content →
    c.transpile f t = (u, .ok ()) → c.Spares files f t u

theorem Free.not_output (hfree : c.Free files) (hf : f ∈ files) (hg : g ∈ files)
    (hl : l = c.sourcePlace g ∨ g ≠ f ∧ l ∈ c.outputs g) : l ∉ c.outputs f := by
  rintro hmem
  rcases hl with rfl | ⟨hne, hl⟩
  · exact hfree.source f hf g hg hmem
  · exact hne (hfree.output g hg f hf ⟨l, hl, hmem⟩)

theorem spares_of_grows (h : Grows t u) : c.Spares files f t u where
  directory := h.directory
  kept _ _ l _ := by
    cases hn : t.node? l with
    | none => exact (h.made l hn).imp id fun hdir => ⟨rfl, hdir⟩
    | some n => exact .inl (h.kept l n hn)
  orderly ho g hg := (ho g hg).grows h

theorem spares_of_touched {O : Location → Prop} (hfree : c.Free files) (hf : f ∈ files)
    (ho : ∀ g ∈ files, c.Orderly g t) (h : Touched O (fun _ => False) t u) (hO : ∀ l, O l → l ∈ c.outputs f) :
    c.Spares files f t u where
  directory := h.directory
  kept _ hg l hl := .inl (h.same (fun hmem => hfree.not_output hf hg hl (hO l hmem)) fun hw => hw.elim)
  orderly _ g hg := (ho g hg).touched h fun l hl => (ho f hf).alone (hO l hl)

/-- A transpiler that writes the compiled file only spares all other files. -/
theorem considerate_of_tidy (hfree : c.Free files) (hf : f ∈ files) (hT : c.Tidy f)
    (hmakes : ∀ t u content, c.Orderly f t → t.read (c.root.join (source f)) = .ok content →
      c.transpile f t = (u, .ok ()) → ∃ text, u.node? (c.target f) = some (.file text)) : c.Considerate files f where
  makes t u content ho hread h := hmakes t u content (ho f hf) hread h
  spares t u content ho hread h :=
    spares_of_touched hfree hf ho (hT t u _ content (ho f hf) hread h) outputs_of_target

/-! ## What is made -/

/-- A file is compiled: its record names the source as it is, and modules in normal form. -/
structure Made (c : Compiler) (f : SourceFile) (t : FileTree) : Prop where
  compiled : ∃ text, t.read (c.root.join (c.destination f)) = .ok text
  recorded : ∃ content imports, t.read (c.root.join (source f)) = .ok content ∧
    t.read (c.recordPath f) = .ok (Record.encode ⟨c.destination f, (Digest.hash content).toHex, imports⟩) ∧
    ∀ i ∈ imports, i.Neat

theorem Made.spared (h : c.Made g t) (hs : c.Spares files f t u) (hg : g ∈ files) (hne : g ≠ f) : c.Made g u := by
  obtain ⟨⟨text, hcompiled⟩, content, imports, hread, hrecord, hneat⟩ := h
  refine ⟨⟨text, hs.read hg (.inr ⟨hne, outputs_of_target _ rfl⟩) hcompiled⟩, content, imports,
    hs.read hg (.inl rfl) hread, hs.read hg (.inr ⟨hne, outputs_of_recordPlace _ rfl⟩) hrecord, hneat⟩

/-- What a script was found to import is spelled as it is resolved. -/
theorem neat_outcome {text : Bytes} (h : imports = (outcome f (c.names f t) text).2) : ∀ i ∈ imports, i.Neat := by
  intro i hi
  rw [h] at hi
  unfold outcome at hi
  split at hi
  · obtain ⟨module, hmodule, rfl⟩ := List.mem_map.1 hi
    obtain ⟨answer, hfound, hsome⟩ := List.mem_filterMap.1 (mem_keepFirst.1 hmodule)
    obtain ⟨found, -, rfl⟩ := List.mem_map.1 hfound
    dsimp only at hsome
    unfold names moduleOf at hsome
    split at hsome
    · next hresolve =>
      cases hsome
      exact neat_resolve hresolve
    · cases hsome
  · cases hi

/-- A file that was compiled is made, and its compiling has spared the others. -/
theorem made_of_fresh (hfree : c.Free files) (hf : f ∈ files) (hT : c.Considerate files f)
    (ho : ∀ g ∈ files, c.Orderly g t) (h : c.compileFile f t = (u, .ok (.fresh imports))) :
    c.Spares files f t u ∧ c.Made f u := by
  obtain ⟨content, hread, h⟩ := recompile_of_fresh h
  cases recompiled h with
  | done _ t₁ t₂ t₃ _ hparent htranspiled himports hrecord =>
    have hgrows := grows_makeParent (ho f hf).links (c.root.join (c.destination f))
    rw [hparent] at hgrows
    have h₁ : c.Spares files f t t₁ := spares_of_grows hgrows
    have ho₁ := h₁.orderly ho
    have hread₁ := h₁.read hf (.inl rfl) hread
    have h₂ := hT.spares _ _ _ ho₁ hread₁ htranspiled
    have ho₂ := h₂.orderly ho₁
    obtain ⟨text, htext⟩ := hT.makes _ _ _ ho₁ hread₁ htranspiled
    have h₃ := spares_of_touched hfree hf ho₂ (touched_retargetImports (ho₂ f hf) himports) outputs_of_target
    have ho₃ := h₃.orderly ho₂
    obtain ⟨-, -, hcompiled, himports⟩ := retargetImports_eq (ho₂ f hf) htext himports
    -- the record is written last, in another place than the compiled file
    obtain ⟨t₄, hparent', hwrite⟩ := save_ok hrecord
    have hgrows' := grows_makeParent (ho₃ f hf).links (c.recordPath f)
    rw [hparent'] at hgrows'
    have h₄ : c.Spares files f t₃ t₄ := spares_of_grows hgrows'
    have ho₄ := h₄.orderly ho₃
    have h₅ := spares_of_touched hfree hf ho₄ (touched_write hwrite (ho₄ f hf).record) outputs_of_recordPlace
    have hspares := h₁.trans (h₂.trans (h₃.trans (h₄.trans h₅)))
    have hrecorded := read_of_write (ho₄ f hf).links hwrite
    have hbeside := hrecorded
    rw [recordPath, Record.join_pathFor] at hbeside
    have hother := node?_write_of_alone hwrite (ho₄ f hf).target (recordPlace_ne_target c f).symm
    have hread' := read_of_file_beside (hother.trans (hgrows'.kept _ _ hcompiled)) (by decide) (by decide) hbeside
    exact ⟨hspares, ⟨_, hread'⟩, content, imports, hspares.read hf (.inl rfl) hread, hrecorded, neat_outcome himports⟩

end Bundler.Compiler
