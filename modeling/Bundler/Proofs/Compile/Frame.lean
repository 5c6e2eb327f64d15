import Bundler.Proofs.Compile.Outputs
import Bundler.Proofs.FileTree.Directories
/-!
# What compiling a file touches

The outputs of a file that was found lie in one directory (`Filed`), and what leads there is its `way`. Where
the transpiler writes the compiled file only (`Tidy`), compiling the file touches nothing but its outputs and
makes nothing but directories on its way, whether it succeeds or not (`compileFile_touched`).
-/

namespace Bundler.Compiler

open FileTree
open Bundler.Path (Component ofComponents)

variable {c : Compiler} {t t' u : FileTree} {sources : List Path} {file f g : SourceFile} {cs : List Component}
  {name : String} {l k : Location} {O W : Location → Prop}

/-! ## Where the outputs lie -/

/-- The outputs of a file lie in one directory, under a name and under this name with a text behind it. -/
structure Filed (c : Compiler) (file : SourceFile) (cs : List Component) (name : String) : Prop where
  compiled : (c.root.join (c.destination file)).components = cs ++ [.name name]
  record : (c.recordPath file).components = cs ++ [.name (name ++ Record.suffix)]

/-- All that leads to the outputs of a file. -/
def way (c : Compiler) (file : SourceFile) : List Location :=
  along [] (c.root.join (c.destination file)).components.dropLast

/-- A file that was found has its outputs in one directory. -/
theorem exists_filed (h : t.Proper) (hf : f ∈ c.discover t sources) : ∃ cs name, c.Filed f cs name := by
  obtain ⟨names, hne, hnames, hpath⟩ := exists_names h hf
  obtain ⟨init, last, rfl⟩ := (List.eq_nil_or_concat names).resolve_left hne
  rw [List.concat_eq_append] at hne hnames hpath
  refine ⟨(c.root.join (c.outDir.join f.1)).components ++ init.map .name, last, ?_, ?_⟩
  · rw [destination, hpath, ← Path.join_assoc, components_join_names _ hne hnames]
    simp
  · rw [recordPath_eq hpath, components_join_names _ (by simp) (spelled_record hnames)]
    simp

namespace Filed

variable (hf : c.Filed file cs name)
include hf

theorem way_eq : c.way file = along [] cs := by rw [way, hf.compiled, List.dropLast_concat]

theorem target_eq : c.target file = cs.foldl enter [] ++ [name] := place_eq_concat hf.compiled

theorem recordPlace_eq : c.recordPlace file = cs.foldl enter [] ++ [name ++ Record.suffix] := place_eq_concat hf.record

/-- Both outputs lie in the one directory. -/
theorem exists_output (hl : l ∈ c.outputs file) : ∃ s, l = cs.foldl enter [] ++ [s] := by
  rw [outputs, hf.target_eq, hf.recordPlace_eq] at hl
  rcases List.mem_cons.1 hl with rfl | hl
  · exact ⟨_, rfl⟩
  · exact ⟨_, List.mem_singleton.1 hl⟩

/-- An output on the way to itself can only be a directory. -/
theorem directory_of_output (hs : t.Steady (c.root.join (c.destination file))) (hl : l ∈ c.outputs file)
    (hw : l ∈ c.way file) : t.node? l = some .directory := by
  rw [hf.way_eq] at hw
  obtain ⟨s, rfl⟩ := hf.exists_output hl
  rcases hs.cases hf.compiled hw with hdir | hpre
  · exact hdir
  · have hlength := hpre.length_le
    rw [List.length_append, List.length_singleton] at hlength
    omega

/-- To a directory that is there directories lead. -/
theorem directory_of_way (h : cs = [] ∨ t.isDirectory (ofComponents cs) = true) :
    ∀ k ∈ c.way file, t.node? k = some .directory := by
  intro k hk
  rw [hf.way_eq] at hk
  exact directory_of_isDirectory (hf.compiled ▸ List.prefix_append _ _) h hk

/-- Making the directory of the outputs makes directories on their way. -/
theorem touched_parent {p : Path} {s : String} {r : Except IoError Unit} (hp : p.components = cs ++ [.name s])
    (hs : t.Steady (c.root.join (c.destination file))) (hw : t.WellLinked) (h : t.makeParent p = (t', r)) :
    Touched (· ∈ c.outputs file) (· ∈ c.way file) t t' := by
  have hparent := touched_makeParent hw hp
  rw [h, ← hf.way_eq] at hparent
  apply hparent.mono_of_apart (fun _ hl => hl.elim) fun _ hl => hl
  intro l _ hl hway hnone
  rw [hf.directory_of_output hs hl hway] at hnone
  cases hnone

/-- The outputs are as they were when their directory was made. -/
theorem same_output_parent {p : Path} {s : String} {r : Except IoError Unit} (hp : p.components = cs ++ [.name s])
    (hs : t.Steady (c.root.join (c.destination file))) (hw : t.WellLinked) (h : t.makeParent p = (t', r))
    (hl : l ∈ c.outputs file) : t'.node? l = t.node? l := by
  have hparent := touched_makeParent hw hp
  rw [h, ← hf.way_eq] at hparent
  apply hparent.same id
  intro hway hnone
  rw [hf.directory_of_output hs hl hway] at hnone
  cases hnone

end Filed

/-! ## What is touched -/

/-- The transpiler of a file writes the compiled file and nothing else. -/
def Tidy (c : Compiler) (file : SourceFile) : Prop :=
  ∀ t t' r content, c.Orderly file t → t.read (c.root.join (source file)) = .ok content →
    c.transpile file t = (t', r) → Touched (· = c.target file) (fun _ => False) t t'

theorem Orderly.alone (ho : c.Orderly file t) (hl : l ∈ c.outputs file) : t.Alone l := by
  rw [outputs] at hl
  rcases List.mem_cons.1 hl with heq | hl
  · rw [heq]
    exact ho.target
  · rw [List.mem_singleton.1 hl]
    exact ho.record

theorem Orderly.touched (ho : c.Orderly file t) (h : Touched O W t u) (hO : ∀ l, O l → t.Alone l) :
    c.Orderly file u := ⟨h.wellLinked hO ho.links, h.alone ho.target, h.alone ho.record⟩

theorem outputs_of_target (l : Location) (hl : l = c.target file) : l ∈ c.outputs file :=
  hl ▸ List.mem_cons_self

theorem outputs_of_recordPlace (l : Location) (hl : l = c.recordPlace file) : l ∈ c.outputs file :=
  hl ▸ List.mem_cons_of_mem _ List.mem_cons_self

/-- Replacing the imports touches the compiled file only. -/
theorem touched_retargetImports {imports : List Path} (ho : c.Orderly file t)
    (h : c.retargetImports t file = .ok (t', imports)) : Touched (· = c.target file) (fun _ => False) t t' := by
  rcases write_of_retargetImports h with rfl | ⟨content, hwrite⟩
  · exact .refl ..
  · exact touched_write hwrite ho.target

theorem touched_save {r : Record} {res : Except RecordError Unit} (hf : c.Filed file cs name) (ho : c.Orderly file t)
    (hs : t.Steady (c.root.join (c.destination file))) (h : r.save t (c.recordPath file) = (t', res)) :
    Touched (· ∈ c.outputs file) (· ∈ c.way file) t t' := by
  obtain ⟨t₁, made, hmade, hend⟩ := save_cases h
  have hparent := hf.touched_parent hf.record hs ho.links hmade
  rcases hend with ⟨rfl, -⟩ | ⟨-, -, hwrite⟩
  · exact hparent
  · have ho₁ := ho.touched hparent fun l hl => ho.alone hl
    exact hparent.trans ((touched_write hwrite ho₁.record).more outputs_of_recordPlace)

/-- Compiling a file touches its outputs and makes directories on their way. -/
theorem recompile_touched {hash : String} {content : Bytes} {r : Except (Failure CompileError) Compiled}
    (hT : c.Tidy file) (hf : c.Filed file cs name) (ho : c.Orderly file t)
    (hs : t.Steady (c.root.join (c.destination file))) (hread : t.read (c.root.join (source file)) = .ok content)
    (h : c.recompile file hash t = (t', r)) : Touched (· ∈ c.outputs file) (· ∈ c.way file) t t' := by
  have parent {t₁ : FileTree} {r : Except IoError Unit}
      (h : t.makeParent (c.root.join (c.destination file)) = (t₁, r)) :
      Touched (· ∈ c.outputs file) (· ∈ c.way file) t t₁ ∧ c.Orderly file t₁ ∧
        t₁.read (c.root.join (source file)) = .ok content := by
    obtain ⟨hgrows, ho₁⟩ := ho.parent h
    exact ⟨hf.touched_parent hf.compiled hs ho.links h, ho₁, hgrows.read hread⟩
  have only {t₁ t₂ : FileTree} (h : Touched (· = c.target file) (fun _ => False) t₁ t₂) :
      Touched (· ∈ c.outputs file) (· ∈ c.way file) t₁ t₂ := h.more outputs_of_target
  have next {t₁ t₂ : FileTree} (ho₁ : c.Orderly file t₁) (h : Touched (· = c.target file) (fun _ => False) t₁ t₂) :
      c.Orderly file t₂ := ho₁.touched h fun l hl => hl ▸ ho₁.target
  -- it does not matter whether the record could be saved
  have saved {t₁ t₂ t₃ : FileTree} {is : List Path} {record : Record} {res : Except RecordError Unit}
      (hparent : t.makeParent (c.root.join (c.destination file)) = (t₁, .ok ()))
      (transpiled : c.transpile file t₁ = (t₂, .ok ())) (imports : c.retargetImports t₂ file = .ok (t₃, is))
      (hrecord : record.save t₃ (c.recordPath file) = (t', res)) :
      Touched (· ∈ c.outputs file) (· ∈ c.way file) t t' := by
    obtain ⟨h₁, ho₁, hread₁⟩ := parent hparent
    have h₂ := hT _ _ _ _ ho₁ hread₁ transpiled
    have ho₂ := next ho₁ h₂
    have h₃ := touched_retargetImports ho₂ imports
    have h₁₃ := h₁.trans ((only h₂).trans (only h₃))
    exact h₁₃.trans (touched_save hf (next ho₂ h₃) (hs.of_directories h₁₃.directory) hrecord)
  cases recompiled h with
  | noDirectory _ _ hparent => exact (parent hparent).1
  | notTranspiled _ _ _ hparent transpiled =>
    obtain ⟨h₁, ho₁, hread₁⟩ := parent hparent
    exact h₁.trans (only (hT _ _ _ _ ho₁ hread₁ transpiled))
  | notRetargeted _ _ _ hparent transpiled =>
    obtain ⟨h₁, ho₁, hread₁⟩ := parent hparent
    exact h₁.trans (only (hT _ _ _ _ ho₁ hread₁ transpiled))
  | notRecorded _ _ _ _ _ _ hparent transpiled imports record => exact saved hparent transpiled imports record
  | done _ _ _ _ _ hparent transpiled imports record => exact saved hparent transpiled imports record

/-- Whatever comes of it, compiling a file touches its outputs and makes directories on their way. -/
theorem compileFile_touched {r : Except (Failure CompileError) Compiled} (hT : c.Tidy file)
    (hf : c.Filed file cs name) (ho : c.Orderly file t) (hs : t.Steady (c.root.join (c.destination file)))
    (h : c.compileFile file t = (t', r)) : Touched (· ∈ c.outputs file) (· ∈ c.way file) t t' := by
  rcases c.compileFile_cases file t with ⟨e, heq⟩ | ⟨content, hread, ⟨-, heq⟩ | heq⟩ <;> rw [heq] at h
  · cases h
    exact .refl ..
  · cases h
    exact .refl ..
  · exact recompile_touched hT hf ho hs hread h

/-- Where the outputs are files in the end, compiling a file has touched them and made directories on their way: before
its imports were looked up, and after that. -/
theorem compileFile_fresh_touched {imports : List Path} (hT : c.Tidy file) (hf : c.Filed file cs name)
    (ho : c.Orderly file t) (hfiles : ∀ l ∈ c.outputs file, t'.node? l ≠ some .directory)
    (h : c.compileFile file t = (t', .ok (.fresh imports))) :
    ∃ u, c.lookupTree? file t = some u ∧ Touched (· ∈ c.outputs file) (· ∈ c.way file) t u ∧
      Touched (· ∈ c.outputs file) (· ∈ c.way file) u t' := by
  obtain ⟨content, hread, h⟩ := recompile_of_fresh h
  cases recompiled h with
  | done _ t₁ t₂ t₃ _ hparent htranspiled himports hrecord =>
    obtain ⟨hgrows, ho₁⟩ := ho.parent hparent
    have h₁ := touched_makeParent ho.links hf.compiled
    have h₂ := hT _ _ _ _ ho₁ (hgrows.read hread) htranspiled
    have ho₂ := ho₁.touched h₂ fun l hl => hl ▸ ho₁.target
    have h₃ := touched_retargetImports ho₂ himports
    have ho₃ := ho₂.touched h₃ fun l hl => hl ▸ ho₂.target
    obtain ⟨t₄, hparent', hwrite⟩ := save_ok hrecord
    have h₄ := touched_makeParent ho₃.links hf.record
    rw [hparent, ← hf.way_eq] at h₁
    rw [hparent', ← hf.way_eq] at h₄
    have h₅ := touched_write hwrite (ho₃.touched h₄ fun l hl => hl.elim).record
    -- a directory in the place of an output would still be there in the end
    have widen {v v' : FileTree} (hv : Touched (fun _ => False) (· ∈ c.way file) v v')
        (hlast : ∀ l, v'.node? l = some .directory → t'.node? l = some .directory) :
        Touched (· ∈ c.outputs file) (· ∈ c.way file) v v' :=
      hv.mono (fun _ hl => hl.elim) (fun _ hl => hl) fun l hl hdir => absurd (hlast l hdir) (hfiles l hl)
    have hbehind (l : Location) (hdir : t₁.node? l = some .directory) : t'.node? l = some .directory :=
      h₅.directory l (h₄.directory l (h₃.directory l (h₂.directory l hdir)))
    exact ⟨t₂, lookupTree?_eq hparent htranspiled, (widen h₁ hbehind).trans (h₂.more outputs_of_target),
      (h₃.more outputs_of_target).trans ((widen h₄ h₅.directory).trans (h₅.more outputs_of_recordPlace))⟩

end Bundler.Compiler
