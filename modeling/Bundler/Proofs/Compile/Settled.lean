import Bundler.Proofs.Compile.Recorded
import Bundler.Proofs.Compile.Renewed
import Bundler.Proofs.Compile.Spared
import Bundler.Proofs.FileTree.Intact
/-!
# Files that have settled

A file has `Settled` when its compiled file is there with a record of the source as it is: then it counts as up to date
(`Settled.compileFile`). A file that is compiled has settled, whatever its outputs were before, and one that was up to
date has settled all along (`settled_of_compileFile`). It stays so while other files are compiled
(`settled_of_compiledAll`), as these leave its source and its record alone (`Leaves`). Where the outputs have second
names, these must be no sources and no records of other files (`Unshared`).
-/

namespace Bundler.Compiler

open FileTree
open Bundler.Path (Component)

variable {c : Compiler} {files done done' : List SourceFile} {f g : SourceFile} {t u v : FileTree} {l m : Location}
  {p : Path} {content : Bytes} {cs : List Component} {name : String}

/-! ## What compiling a file leaves -/

/-- What a transpiler does that makes the compiled file and writes nothing else. The compiled file is written under all
its names. -/
structure Created (c : Compiler) (f : SourceFile) (t u : FileTree) : Prop where
  there : u.contains (c.root.join (c.destination f)) = true
  same : ∀ l, l ∉ t.names (c.target f) → u.node? l = t.node? l
  directory : t.node? (c.target f) = some .directory → u.node? (c.target f) = some .directory
  named : ∀ l ∈ t.names (c.target f), l ≠ c.target f → ∃ content, u.node? l = some (.file content)
  intact : u.Intact

/-- The second names of outputs are no sources, and no records of other files. -/
def Unshared (c : Compiler) (files : List SourceFile) (t : FileTree) : Prop :=
  ∀ f ∈ files, ∀ l ∈ c.outputs f, ∀ m ∈ t.names l, m ≠ l →
    ∀ g ∈ files, m ≠ c.sourcePlace g ∧ (m = c.recordPlace g → g = f)

/-- Work on some of the files, the ones in `done`: directories stay and nothing goes away, sources stay what they are,
and so do the records of other files. Files are made where outputs are, and directories on the way there. -/
structure Leaves (c : Compiler) (files done : List SourceFile) (t u : FileTree) : Prop where
  directory : ∀ l, t.node? l = some .directory → u.node? l = some .directory
  there : ∀ l, (t.node? l).isSome → (u.node? l).isSome
  sources : ∀ g ∈ files, ∀ content, t.node? (c.sourcePlace g) = some (.file content) →
    u.node? (c.sourcePlace g) = some (.file content)
  records : ∀ g ∈ files, g ∉ done → ∀ content, t.node? (c.recordPlace g) = some (.file content) →
    u.node? (c.recordPlace g) = some (.file content)
  file : ∀ l content, u.node? l = some (.file content) →
    (∃ f ∈ done, l ∈ c.outputs f) ∨ ∃ old, t.node? l = some (.file old)
  made : ∀ l, u.node? l = some .directory →
    t.node? l = some .directory ∨ ∃ f ∈ done, l ∈ c.way f ∨ l = c.target f

namespace Leaves

theorem refl (c : Compiler) (files done : List SourceFile) (t : FileTree) : c.Leaves files done t t where
  directory _ h := h
  there _ h := h
  sources _ _ _ h := h
  records _ _ _ _ h := h
  file _ content h := .inr ⟨content, h⟩
  made _ h := .inl h

theorem trans (h : c.Leaves files done t u) (h' : c.Leaves files done u v) : c.Leaves files done t v where
  directory l hl := h'.directory l (h.directory l hl)
  there l hl := h'.there l (h.there l hl)
  sources g hg content hl := h'.sources g hg content (h.sources g hg content hl)
  records g hg hnot content hl := h'.records g hg hnot content (h.records g hg hnot content hl)
  file l content hl := by
    rcases h'.file l content hl with hout | ⟨old, hold⟩
    · exact .inl hout
    · exact h.file l old hold
  made l hl := by
    rcases h'.made l hl with hdir | hmade
    · exact h.made l hdir
    · exact .inr hmade

theorem mono (h : c.Leaves files done t u) (hsub : ∀ f ∈ done, f ∈ done') : c.Leaves files done' t u where
  directory := h.directory
  there := h.there
  sources := h.sources
  records g hg hnot := h.records g hg fun hmem => hnot (hsub g hmem)
  file l content hl := (h.file l content hl).imp_left fun ⟨f, hf, hl⟩ => ⟨f, hsub f hf, hl⟩
  made l hl := (h.made l hl).imp_right fun ⟨f, hf, hl⟩ => ⟨f, hsub f hf, hl⟩

/-- Making directories on the way to the outputs. -/
theorem of_touched (h : Touched (fun _ => False) (· ∈ c.way f) t u) : c.Leaves files [f] t u where
  directory := h.directory
  there l hl := by
    rcases h.entry l id with heq | ⟨-, hnone, -⟩
    · rwa [heq]
    · rw [hnone] at hl
      cases hl
  sources g _ content hl := (h.same id fun _ => by simp [hl]).trans hl
  records g _ _ content hl := (h.same id fun _ => by simp [hl]).trans hl
  file l content hl := by
    rcases h.entry l id with heq | ⟨-, -, hdir⟩
    · exact .inr ⟨content, heq ▸ hl⟩
    · rw [hdir] at hl
      cases hl
  made l hl := by
    rcases h.entry l id with heq | ⟨hway, -, -⟩
    · exact .inl (heq ▸ hl)
    · exact .inr ⟨f, List.mem_cons_self, .inl hway⟩

end Leaves

/-- What was read in the place of a source is read as before. -/
theorem Leaves.read_source (h : c.Leaves files done t u) (hg : g ∈ files)
    (hread : t.read (c.root.join (source g)) = .ok content) : u.read (c.root.join (source g)) = .ok content :=
  read_of_directories h.directory (h.sources g hg content (node?_of_read hread)) hread

theorem Leaves.read_record (h : c.Leaves files done t u) (hg : g ∈ files) (hnot : g ∉ done)
    (hread : t.read (c.recordPath g) = .ok content) : u.read (c.recordPath g) = .ok content :=
  read_of_directories h.directory (h.records g hg hnot content (node?_of_read hread)) hread

theorem Leaves.contains (h : c.Leaves files done t u) (hthere : t.contains p = true) : u.contains p = true := by
  refine contains_of_directories h.directory (h.there _ ?_) hthere
  obtain ⟨n, hn⟩ := Option.isSome_iff_exists.1 hthere
  exact Option.isSome_iff_exists.2 ⟨n, (at?_eq_some.1 hn).2.2⟩

theorem Unshared.congr (h : c.Unshared files t) (hlinks : u.links = t.links) : c.Unshared files u :=
  fun f hf l hl m hm => h f hf l hl m (names_congr hlinks l ▸ hm)

/-- Under none of its names an output is a source, or another file's record. -/
theorem Unshared.not_names (h : c.Unshared files t) (hfree : c.Free files) (hf : f ∈ files) (hl : l ∈ c.outputs f)
    (hg : g ∈ files) (hm : m = c.sourcePlace g ∨ g ≠ f ∧ m = c.recordPlace g) : m ∉ t.names l := by
  intro hmem
  by_cases hne : m = l
  · subst hne
    refine hfree.not_output hf hg ?_ hl
    exact hm.imp_right fun ⟨hne, heq⟩ => ⟨hne, outputs_of_recordPlace _ heq⟩
  · obtain ⟨hsource, hrecord⟩ := h f hf l hl m hmem hne g hg
    rcases hm with heq | ⟨hne', heq⟩
    · exact hsource heq
    · exact hne' (hrecord heq)

section Steps

variable (ht : t.Intact) (hshare : c.Unshared files t) (hfree : c.Free files) (hf : f ∈ files)
include ht hshare hfree hf

/-- An output is put where it belongs, under all its names. -/
theorem leaves_of_names (hl : l ∈ c.outputs f) (hsame : ∀ k, k ∉ t.names l → u.node? k = t.node? k)
    (hnamed : ∀ k ∈ t.names l, k ≠ l → ∃ content, u.node? k = some (.file content))
    (hthere : (t.node? l).isSome → (u.node? l).isSome)
    (hdir : t.node? l = some .directory → u.node? l = some .directory)
    (hmade : u.node? l = some .directory → t.node? l = some .directory ∨ l = c.target f) :
    c.Leaves files [f] t u := by
  have hcases (k : Location) : u.node? k = t.node? k ∨ k = l ∨
      (∃ content, t.node? k = some (.file content)) ∧ ∃ content, u.node? k = some (.file content) := by
    by_cases hk : k ∈ t.names l
    · by_cases hne : k = l
      · exact .inr (.inl hne)
      · exact .inr (.inr ⟨(ht.file_of_mem_names hk hne).1, hnamed k hk hne⟩)
    · exact .inl (hsame k hk)
  constructor
  case directory =>
    intro k hk
    rcases hcases k with heq | rfl | ⟨⟨_, hold⟩, -⟩
    · rw [heq, hk]
    · exact hdir hk
    · rw [hk] at hold
      cases hold
  case there =>
    intro k hk
    rcases hcases k with heq | rfl | ⟨-, _, hnew⟩
    · rwa [heq]
    · exact hthere hk
    · rw [hnew]
      rfl
  case sources =>
    exact fun g hg content hfile => (hsame _ (hshare.not_names hfree hf hl hg (.inl rfl))).trans hfile
  case records =>
    intro g hg hnot content hfile
    exact (hsame _ (hshare.not_names hfree hf hl hg
      (.inr ⟨fun heq => hnot (List.mem_singleton.2 heq), rfl⟩))).trans hfile
  case file =>
    intro k content hk
    rcases hcases k with heq | rfl | ⟨hold, -⟩
    · exact .inr ⟨content, heq ▸ hk⟩
    · exact .inl ⟨f, List.mem_cons_self, hl⟩
    · exact .inr hold
  case made =>
    intro k hk
    rcases hcases k with heq | rfl | ⟨-, _, hnew⟩
    · exact .inl (heq ▸ hk)
    · exact (hmade hk).imp_right fun htarget => ⟨f, List.mem_cons_self, .inr htarget⟩
    · rw [hk] at hnew
      cases hnew

/-- Writing an output. -/
theorem leaves_of_sameBut (hl : l ∈ c.outputs f) (h : SameBut (· ∈ t.names l) t u) : c.Leaves files [f] t u := by
  refine leaves_of_names ht hshare hfree hf hl h.entry (fun k hk hne => ?_) (h.there l) (h.directory l).2
    fun hdir => .inl ((h.directory l).1 hdir)
  obtain ⟨_, hold⟩ := (ht.file_of_mem_names hk hne).1
  exact h.exists_file hold

/-- Making the compiled file. -/
theorem leaves_of_created (h : c.Created f t u) : c.Leaves files [f] t u := by
  refine leaves_of_names ht hshare hfree hf (outputs_of_target _ rfl) h.same h.named (fun _ => ?_) h.directory
    fun _ => .inr rfl
  obtain ⟨n, hn⟩ := Option.isSome_iff_exists.1 h.there
  exact Option.isSome_iff_exists.2 ⟨n, (at?_eq_some.1 hn).2.2⟩

end Steps

/-! ## Settled files -/

/-- The compiled file is there, and beside it a record that has the digest of the source, if it is short enough to be
read at all. -/
def Settled (c : Compiler) (f : SourceFile) (t : FileTree) : Prop :=
  t.contains (c.root.join (c.destination f)) = true ∧
    ∃ content bytes, t.read (c.root.join (source f)) = .ok content ∧ t.read (c.recordPath f) = .ok bytes ∧
      (bytes.length < Cbor.wordCount → ∃ r, Record.decode bytes = .ok r ∧ r.hash = (Digest.hash content).toHex)

/-- A file that has settled is up to date. -/
theorem Settled.compileFile (h : c.Settled f t)
    (hsize : ∀ bytes, t.node? (c.recordPlace f) = some (.file bytes) → bytes.length < Cbor.wordCount) :
    c.compileFile f t = (t, .ok .cached) := by
  obtain ⟨hthere, content, bytes, hread, hrecord, hdecode⟩ := h
  obtain ⟨r, hr, hhash⟩ := hdecode (hsize bytes (node?_of_read hrecord))
  have hcurrent : c.isCurrent t f (Digest.hash content).toHex = true :=
    isCurrent_iff.2 ⟨⟨bytes, r, hrecord, hr, hhash⟩, hthere⟩
  rw [compileFile_of_read hread, if_pos hcurrent]

/-- Work on other files leaves a file settled. -/
theorem Settled.left (h : c.Settled g t) (hleaves : c.Leaves files [f] t u) (hg : g ∈ files) (hne : g ≠ f) :
    c.Settled g u := by
  obtain ⟨hthere, content, bytes, hread, hrecord, hdecode⟩ := h
  exact ⟨hleaves.contains hthere, content, bytes, hleaves.read_source hg hread,
    hleaves.read_record hg (fun hmem => hne (List.mem_singleton.1 hmem)) hrecord, hdecode⟩

theorem settled_of_cached (h : c.compileFile f t = (u, .ok .cached)) : u = t ∧ c.Settled f u := by
  rcases c.compileFile_cases f t with ⟨e, heq⟩ | ⟨content, hread, ⟨hcurrent, heq⟩ | heq⟩ <;> rw [heq] at h
  · cases h
  · cases h
    obtain ⟨⟨bytes, record, hbytes, hdecode, hhash⟩, hthere⟩ := isCurrent_iff.1 hcurrent
    exact ⟨rfl, hthere, content, bytes, hread, hbytes, fun _ => ⟨record, hdecode, hhash⟩⟩
  · exact absurd h recompile_ne_cached

/-- What is asked of the transpiler of one of some files: where it succeeds it makes the compiled file and writes
nothing else, and the names of outputs stay as well told apart as they were. -/
structure Creates (c : Compiler) (files : List SourceFile) (f : SourceFile) : Prop where
  created : ∀ t u content, t.Intact → t.read (c.root.join (source f)) = .ok content →
    c.transpile f t = (u, .ok ()) → c.Created f t u
  unshared : ∀ t u content, t.Intact → c.Unshared files t → t.read (c.root.join (source f)) = .ok content →
    c.transpile f t = (u, .ok ()) → c.Unshared files u

section Compile

variable (ht : t.Intact) (hshare : c.Unshared files t) (hfree : c.Free files) (hf : f ∈ files)
  (hfiled : c.Filed f cs name) (hT : c.Creates files f)
include ht hshare hfree hf

theorem left_of_write (hp : place p ∈ c.outputs f) (h : t.write p content = .ok u) :
    u.Intact ∧ c.Unshared files u ∧ c.Leaves files [f] t u :=
  ⟨ht.write h, hshare.congr (links_write h), leaves_of_sameBut ht hshare hfree hf hp (sameBut_names ht.linked h)⟩

omit hfree hf in
theorem left_of_makeParent {r : Except IoError Unit} (hp : p.components = cs ++ [.name name])
    (hway : c.way f = along [] cs) (h : t.makeParent p = (u, r)) :
    u.Intact ∧ c.Unshared files u ∧ c.Leaves files [f] t u := by
  have hintact := ht.makeParent p
  have hgrows := grows_makeParent ht.linked p
  have htouched := touched_makeParent ht.linked hp
  rw [h] at hintact hgrows htouched
  rw [← hway] at htouched
  exact ⟨hintact, hshare.congr hgrows.links, .of_touched htouched⟩

theorem left_of_retarget {imports : List Path} (h : c.retargetImports t f = .ok (u, imports)) :
    u.Intact ∧ c.Unshared files u ∧ c.Leaves files [f] t u := by
  rcases write_of_retargetImports h with rfl | ⟨content, hwrite⟩
  · exact ⟨ht, hshare, .refl ..⟩
  · exact left_of_write ht hshare hfree hf (outputs_of_target _ rfl) hwrite

include hfiled hT

/-- A file that was compiled has settled, and what else there is was left. -/
theorem settled_of_fresh {imports : List Path} (h : c.compileFile f t = (u, .ok (.fresh imports))) :
    u.Intact ∧ c.Unshared files u ∧ c.Leaves files [f] t u ∧ c.Settled f u := by
  obtain ⟨content, hread, h⟩ := recompile_of_fresh h
  cases recompiled h with
  | done _ t₁ t₂ t₃ _ hparent htranspiled himports hrecord =>
    obtain ⟨ht₁, hshare₁, h₁⟩ := left_of_makeParent ht hshare hfiled.compiled hfiled.way_eq hparent
    have hread₁ := h₁.read_source hf hread
    have hcreated := hT.created _ _ _ ht₁ hread₁ htranspiled
    have h₂ := leaves_of_created ht₁ hshare₁ hfree hf hcreated
    have hshare₂ := hT.unshared _ _ _ ht₁ hshare₁ hread₁ htranspiled
    obtain ⟨ht₃, hshare₃, h₃⟩ := left_of_retarget hcreated.intact hshare₂ hfree hf himports
    -- the record is written last
    obtain ⟨t₄, hparent', hwrite⟩ := save_ok hrecord
    obtain ⟨ht₄, hshare₄, h₄⟩ := left_of_makeParent ht₃ hshare₃ hfiled.record hfiled.way_eq hparent'
    obtain ⟨hu, hshare', h₅⟩ := left_of_write ht₄ hshare₄ hfree hf (outputs_of_recordPlace _ rfl) hwrite
    have hafter := h₃.trans (h₄.trans h₅)
    refine ⟨hu, hshare', h₁.trans (h₂.trans hafter), hafter.contains hcreated.there, content, _,
      (h₁.trans (h₂.trans hafter)).read_source hf hread, read_of_write ht₄.linked hwrite, fun hlength => ?_⟩
    have hdecode := Record.decode_encode (Record.fits_of_length hlength) []
    rw [List.append_nil] at hdecode
    exact ⟨_, hdecode, rfl⟩

theorem settled_of_compileFile {x : Compiled} (h : c.compileFile f t = (u, .ok x)) :
    u.Intact ∧ c.Unshared files u ∧ c.Leaves files [f] t u ∧ c.Settled f u := by
  cases x with
  | cached =>
    obtain ⟨rfl, hsettled⟩ := settled_of_cached h
    exact ⟨ht, hshare, .refl .., hsettled⟩
  | fresh imports => exact settled_of_fresh ht hshare hfree hf hfiled hT h

end Compile

/-- When files were compiled one after the other, all of them have settled. -/
theorem settled_of_compiledAll (ht : t.Intact) (hshare : c.Unshared files t) (hfree : c.Free files)
    (hfiled : ∀ f ∈ files, ∃ cs name, c.Filed f cs name) (hT : ∀ f ∈ files, c.Creates files f)
    (hall : c.CompiledAll t done u) (hdone : ∀ f ∈ done, f ∈ files) :
    u.Intact ∧ c.Unshared files u ∧ c.Leaves files files t u ∧ ∀ f ∈ done, c.Settled f u := by
  induction hall with
  | none => exact ⟨ht, hshare, .refl .., fun f hf => absurd hf List.not_mem_nil⟩
  | @next done f u u' x _ hmade ih =>
    rw [List.forall_mem_cons] at hdone
    obtain ⟨hu, hshareu, hleaves, hsettled⟩ := ih hdone.2
    obtain ⟨cs, name, hf⟩ := hfiled f hdone.1
    obtain ⟨hu', hshare', hleft, hnow⟩ := settled_of_compileFile hu hshareu hfree hdone.1 hf (hT f hdone.1) hmade
    refine ⟨hu', hshare', hleaves.trans (hleft.mono fun g hg => List.mem_singleton.1 hg ▸ hdone.1),
      List.forall_mem_cons.2 ⟨hnow, fun g hg => ?_⟩⟩
    by_cases heq : g = f
    · exact heq ▸ hnow
    · exact (hsettled g hg).left hleft (hdone.2 g hg) heq

end Bundler.Compiler
