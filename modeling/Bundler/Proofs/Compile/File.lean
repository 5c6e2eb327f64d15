import Bundler.Compile
import Bundler.Proofs.FileTree.Change
import Bundler.Proofs.Record
/-!
# Compiling one file

`Recompiled` lists how compiling a file can end. Of a transpiler it is asked (`Contract`) that it
leaves the record alone and that, when it succeeds, the compiled file is a function of the source.
Then a file that was compiled is that function with its imports replaced, and its record names the
digest of the source (`compileFile_fresh`); a failure leaves the record as it was
(`compileFile_failed`); and a file counts as up to date when its record has the digest of the source
(`compileFile_cached`).
-/

namespace Bundler

open FileTree

/-! ## Imports -/

/-- The module that a specifier names in the directory `base`, if it names one. -/
def moduleOf (t : FileTree) (root base : Path) (specifier : String) : Option String :=
  match resolve t root base specifier with
  | .ok path => some path.text
  | .error _ => none

theorem retarget_congr {f : String → Option String} {t : FileTree} {root base : Path} (content : Bytes)
    (h : ∀ specifier, f specifier = moduleOf t root base specifier) :
    Import.retarget f content = Import.retarget (moduleOf t root base) content := by
  rw [funext h]

/-- Replacing the imports of a file reads it, and writes it if that changes it. -/
theorem retargetFile_eq {t t' : FileTree} {root file base : Path} {imports : List Path}
    (h : retargetFile t root file base = .ok (t', imports)) :
    ∃ content, t.read file = .ok content ∧
      imports = (Import.retarget (moduleOf t root base) content).imports.map Path.mk ∧
      (t' = t ∧ (Import.retarget (moduleOf t root base) content).source = content ∨
        t.write file (Import.retarget (moduleOf t root base) content).source = .ok t') := by
  unfold retargetFile at h
  split at h
  · cases h
  next content hread =>
  refine ⟨content, hread, ?_⟩
  dsimp only at h
  rw [retarget_congr content] at h
  · split at h
    · next hsame =>
      rw [Except.ok.injEq, Prod.mk.injEq] at h
      exact ⟨h.2.symm, .inl ⟨h.1.symm, hsame⟩⟩
    · split at h
      · cases h
      · next hwrite =>
        rw [Except.ok.injEq, Prod.mk.injEq] at h
        exact ⟨h.2.symm, .inr (h.1 ▸ hwrite)⟩
  · intro specifier
    unfold moduleOf
    cases resolve t root base specifier <;> rfl

namespace Compiler

variable {c : Compiler} {file : SourceFile} {t t' : FileTree} {F : Bytes → Bytes}

/-! ## Places -/

/-- Where the compiled file is. -/
def target (c : Compiler) (file : SourceFile) : Location := place (c.root.join (c.destination file))

/-- Where its record is. -/
def recordPlace (c : Compiler) (file : SourceFile) : Location := place (c.recordPath file)

theorem recordPlace_ne_target (c : Compiler) (file : SourceFile) : c.recordPlace file ≠ c.target file := by
  have htext : c.recordPath file = ⟨(c.root.join (c.destination file)).text ++ Record.suffix⟩ :=
    congrArg Path.mk (Path.join_append c.root (c.destination file) (s := Record.suffix) (by decide))
  rw [recordPlace, htext]
  exact place_append_ne _ (by decide) (by decide)

/-- The compiled file and its record have no other names. -/
structure Orderly (c : Compiler) (file : SourceFile) (t : FileTree) : Prop where
  links : t.WellLinked
  target : t.Alone (c.target file)
  record : t.Alone (c.recordPlace file)

theorem Orderly.grows (h : c.Orderly file t) (hg : Grows t t') : c.Orderly file t' :=
  ⟨hg.wellLinked h.links, hg.alone h.target, hg.alone h.record⟩

theorem Orderly.write (h : c.Orderly file t) {p : Path} {content : Bytes} (hw : t.write p content = .ok t') :
    c.Orderly file t' := by
  have hlinks := links_write hw
  refine ⟨wellLinked_write h.links hw, ?_, ?_⟩ <;> unfold Alone <;> rw [hlinks]
  · exact h.target
  · exact h.record

/-- Where no file has a second name the compiled file and its record have none. -/
theorem orderly_of_links (h : t.links = []) : c.Orderly file t := by
  refine ⟨fun group hgroup => ?_, fun group hgroup => ?_, fun group hgroup => ?_⟩ <;> simp [h] at hgroup

/-! ## Ways to end -/

/-- Makes the compiled file from the source. -/
def transpile (c : Compiler) (file : SourceFile) (t : FileTree) : FileTree × Except (Failure TranspileError) Unit :=
  (c.transpilers.get (source file)).run c.programs c.root (c.root.join (source file))
    (c.root.join (c.destination file)) t

/-- How compiling a file can end: each step is made when the one before it went well. -/
inductive Recompiled (c : Compiler) (file : SourceFile) (hash : String) (t : FileTree) :
    FileTree → Except (Failure CompileError) Compiled → Prop where
  | noDirectory (e : IoError) (t₁ : FileTree)
    (parent : t.makeParent (c.root.join (c.destination file)) = (t₁, .error e)) :
    Recompiled c file hash t t₁ (.error (.error (.inaccessible (c.destination file) e)))
  | notTranspiled (f : Failure TranspileError) (t₁ t₂ : FileTree)
    (parent : t.makeParent (c.root.join (c.destination file)) = (t₁, .ok ()))
    (transpiled : c.transpile file t₁ = (t₂, .error f)) :
    Recompiled c file hash t t₂ (.error (f.map .transpile))
  | notRetargeted (e : IoError) (t₁ t₂ : FileTree)
    (parent : t.makeParent (c.root.join (c.destination file)) = (t₁, .ok ()))
    (transpiled : c.transpile file t₁ = (t₂, .ok ())) (imports : c.retargetImports t₂ file = .error e) :
    Recompiled c file hash t t₂ (.error (.error (.inaccessible (c.destination file) e)))
  | notRecorded (e : RecordError) (is : List Path) (t₁ t₂ t₃ t₄ : FileTree)
    (parent : t.makeParent (c.root.join (c.destination file)) = (t₁, .ok ()))
    (transpiled : c.transpile file t₁ = (t₂, .ok ())) (imports : c.retargetImports t₂ file = .ok (t₃, is))
    (record : Record.save ⟨c.destination file, hash, is⟩ t₃ (c.recordPath file) = (t₄, .error e)) :
    Recompiled c file hash t t₄ (.error (.error (.record e)))
  | done (is : List Path) (t₁ t₂ t₃ t₄ : FileTree)
    (parent : t.makeParent (c.root.join (c.destination file)) = (t₁, .ok ()))
    (transpiled : c.transpile file t₁ = (t₂, .ok ())) (imports : c.retargetImports t₂ file = .ok (t₃, is))
    (record : Record.save ⟨c.destination file, hash, is⟩ t₃ (c.recordPath file) = (t₄, .ok ())) :
    Recompiled c file hash t t₄ (.ok (.fresh is))

theorem recompiled {hash : String} {r : Except (Failure CompileError) Compiled}
    (h : c.recompile file hash t = (t', r)) : Recompiled c file hash t t' r := by
  unfold recompile at h
  dsimp only at h
  split at h
  next e parent => cases h; exact .noDirectory e t' parent
  next t₁ parent =>
  split at h
  next f transpiled => cases h; exact .notTranspiled f t₁ t' parent transpiled
  next t₂ transpiled =>
  split at h
  next e imports => cases h; exact .notRetargeted e t₁ t' parent transpiled imports
  next t₃ is imports =>
  split at h
  next e record => cases h; exact .notRecorded e is t₁ t₂ t₃ t' parent transpiled imports record
  next record => cases h; exact .done is t₁ t₂ t₃ t' parent transpiled imports record

/-- The tree in which the imports of a file are looked up, if compiling it comes to that. -/
def lookupTree? (c : Compiler) (file : SourceFile) (t : FileTree) : Option FileTree :=
  match t.makeParent (c.root.join (c.destination file)) with
  | (_, .error _) => none
  | (t, .ok ()) =>
    match c.transpile file t with
    | (_, .error _) => none
    | (t, .ok ()) => some t

theorem lookupTree?_eq {t₁ t₂ : FileTree} (parent : t.makeParent (c.root.join (c.destination file)) = (t₁, .ok ()))
    (transpiled : c.transpile file t₁ = (t₂, .ok ())) : c.lookupTree? file t = some t₂ := by
  unfold lookupTree?
  rw [parent]
  dsimp only
  rw [transpiled]

/-! ## What it makes -/

/-- The module that a specifier in the file names, if it names one. -/
def names (c : Compiler) (file : SourceFile) (t : FileTree) : String → Option String :=
  moduleOf t c.root ((source file).parent?.getD ⟨""⟩)

/-- What becomes of transpiled text, and what it imports, where `names` gives the modules of
specifiers. -/
def outcome (file : SourceFile) (names : String → Option String) (text : Bytes) : Bytes × List Path :=
  if isScript (source file) then
    ((Import.retarget names text).source, (Import.retarget names text).imports.map Path.mk)
  else (text, [])

/-- What is asked of the transpiler of a file: it leaves the record alone, and when it succeeds the
compiled file is `F` of the source. When it fails the compiled file can be anything. -/
structure Contract (c : Compiler) (file : SourceFile) (F : Bytes → Bytes) : Prop where
  keeps : ∀ t t' r content, c.Orderly file t → t.read (c.root.join (source file)) = .ok content →
    c.transpile file t = (t', r) → c.Orderly file t' ∧ t'.node? (c.recordPlace file) = t.node? (c.recordPlace file)
  makes : ∀ t t' content, c.Orderly file t → t.read (c.root.join (source file)) = .ok content →
    c.transpile file t = (t', .ok ()) → t'.node? (c.target file) = some (.file (F content))

/-- Replacing the imports changes the compiled file only. -/
theorem retargetImports_eq {imports : List Path} {text : Bytes} (ho : c.Orderly file t)
    (hfile : t.node? (c.target file) = some (.file text)) (h : c.retargetImports t file = .ok (t', imports)) :
    c.Orderly file t' ∧ t'.node? (c.recordPlace file) = t.node? (c.recordPlace file) ∧
      t'.node? (c.target file) = some (.file (outcome file (c.names file t) text).1) ∧
      imports = (outcome file (c.names file t) text).2 := by
  unfold retargetImports at h
  dsimp only at h
  unfold outcome
  split at h
  · next hscript =>
    rw [if_pos hscript]
    obtain ⟨content, hread, himports, hend⟩ := retargetFile_eq h
    have htext : content = text := by
      have := (node?_of_read hread).symm.trans hfile
      simpa using this
    rw [htext] at himports hend
    rcases hend with ⟨rfl, hsame⟩ | hwrite
    · exact ⟨ho, rfl, hfile.trans (congrArg (some ∘ Node.file) hsame.symm), himports⟩
    · exact ⟨ho.write hwrite, node?_write_of_alone hwrite ho.record (recordPlace_ne_target c file), node?_write hwrite,
        himports⟩
  · next hscript =>
    rw [if_neg hscript]
    cases h
    exact ⟨ho, rfl, hfile, rfl⟩

/-- Replacing the imports writes the compiled file or does nothing. -/
theorem write_of_retargetImports {imports : List Path} (h : c.retargetImports t file = .ok (t', imports)) :
    t' = t ∨ ∃ content, t.write (c.root.join (c.destination file)) content = .ok t' := by
  unfold retargetImports at h
  dsimp only at h
  split at h
  · obtain ⟨content, -, -, ⟨rfl, -⟩ | hwrite⟩ := retargetFile_eq h
    · exact .inl rfl
    · exact .inr ⟨_, hwrite⟩
  · cases h
    exact .inl rfl

/-- A record is written once its directory was made. -/
theorem save_cases {r : Record} {p : Path} {res : Except RecordError Unit} (h : r.save t p = (t', res)) :
    ∃ t₁ made, t.makeParent p = (t₁, made) ∧
      (t' = t₁ ∧ res ≠ .ok () ∨ made = .ok () ∧ res = .ok () ∧ t₁.write p r.encode = .ok t') := by
  unfold Record.save at h
  split at h
  · next hparent =>
    cases h
    exact ⟨_, _, hparent, .inl ⟨rfl, nofun⟩⟩
  next t₁ hparent =>
  refine ⟨t₁, _, hparent, ?_⟩
  split at h
  · cases h
    exact .inl ⟨rfl, nofun⟩
  · next hwrite =>
    cases h
    exact .inr ⟨rfl, rfl, hwrite⟩

theorem save_ok {r : Record} {p : Path} (h : r.save t p = (t', .ok ())) :
    ∃ t₁, t.makeParent p = (t₁, .ok ()) ∧ t₁.write p r.encode = .ok t' := by
  obtain ⟨t₁, made, hparent, ⟨-, hne⟩ | ⟨rfl, -, hwrite⟩⟩ := save_cases h
  · exact absurd rfl hne
  · exact ⟨t₁, hparent, hwrite⟩

theorem save_error {r : Record} {p : Path} {e : RecordError} (hw : t.WellLinked) (h : r.save t p = (t', .error e)) :
    Grows t t' := by
  obtain ⟨t₁, made, hparent, ⟨rfl, -⟩ | ⟨-, hres, -⟩⟩ := save_cases h
  · have hg := grows_makeParent hw p
    rwa [hparent] at hg
  · cases hres

/-- Up to the transpiler, the source and the record are as before. -/
theorem Orderly.parent (ho : c.Orderly file t) {t₁ : FileTree} {r : Except IoError Unit}
    (parent : t.makeParent (c.root.join (c.destination file)) = (t₁, r)) : Grows t t₁ ∧ c.Orderly file t₁ := by
  have hg := grows_makeParent ho.links (c.root.join (c.destination file))
  rw [parent] at hg
  exact ⟨hg, ho.grows hg⟩

/-- A file that was compiled is `F` of its source with the imports replaced, and its record has the
digest of the source. -/
theorem recompile_fresh (hF : c.Contract file F) (ho : c.Orderly file t) {hash : String} {content : Bytes}
    {imports : List Path} (hread : t.read (c.root.join (source file)) = .ok content)
    (h : c.recompile file hash t = (t', .ok (.fresh imports))) :
    ∃ u, c.lookupTree? file t = some u ∧ c.Orderly file t' ∧ imports = (outcome file (c.names file u) (F content)).2 ∧
      t'.node? (c.target file) = some (.file (outcome file (c.names file u) (F content)).1) ∧
      t'.node? (c.recordPlace file) = some (.file (Record.encode ⟨c.destination file, hash, imports⟩)) := by
  cases recompiled h with
  | done _ t₁ t₂ t₃ _ parent transpiled himports record =>
    obtain ⟨hg, ho₁⟩ := ho.parent parent
    have hread₁ := hg.read hread
    obtain ⟨ho₂, -⟩ := hF.keeps _ _ _ _ ho₁ hread₁ transpiled
    obtain ⟨ho₃, -, hfile, himports⟩ := retargetImports_eq ho₂ (hF.makes _ _ _ ho₁ hread₁ transpiled) himports
    -- the record is written last, in another place than the compiled file
    obtain ⟨t₄, hparent, hwrite⟩ := save_ok record
    have hg' := grows_makeParent ho₃.links (c.recordPath file)
    rw [hparent] at hg'
    have ho₄ := ho₃.grows hg'
    refine ⟨t₂, lookupTree?_eq parent transpiled, ho₄.write hwrite, himports, ?_, node?_write hwrite⟩
    rw [node?_write_of_alone hwrite ho₄.target (recordPlace_ne_target c file).symm]
    exact hg'.kept _ _ hfile

/-- Where compiling fails, the record is as it was. -/
theorem recompile_failed (hF : c.Contract file F) (ho : c.Orderly file t) {hash : String} {content : Bytes}
    {e : Failure CompileError} (hread : t.read (c.root.join (source file)) = .ok content)
    (h : c.recompile file hash t = (t', .error e)) :
    c.Orderly file t' ∧ ∀ bytes,
      t'.node? (c.recordPlace file) = some (.file bytes) ↔ t.node? (c.recordPlace file) = some (.file bytes) := by
  cases recompiled h with
  | noDirectory _ _ parent =>
    obtain ⟨hg, ho₁⟩ := ho.parent parent
    exact ⟨ho₁, fun bytes => hg.file_iff⟩
  | notTranspiled _ t₁ _ parent transpiled =>
    obtain ⟨hg, ho₁⟩ := ho.parent parent
    obtain ⟨ho₂, hrecord⟩ := hF.keeps _ _ _ _ ho₁ (hg.read hread) transpiled
    exact ⟨ho₂, fun bytes => by rw [hrecord, hg.file_iff]⟩
  | notRetargeted _ t₁ _ parent transpiled =>
    obtain ⟨hg, ho₁⟩ := ho.parent parent
    obtain ⟨ho₂, hrecord⟩ := hF.keeps _ _ _ _ ho₁ (hg.read hread) transpiled
    exact ⟨ho₂, fun bytes => by rw [hrecord, hg.file_iff]⟩
  | notRecorded _ _ t₁ t₂ t₃ _ parent transpiled himports record =>
    obtain ⟨hg, ho₁⟩ := ho.parent parent
    have hread₁ := hg.read hread
    obtain ⟨ho₂, hrecord⟩ := hF.keeps _ _ _ _ ho₁ hread₁ transpiled
    obtain ⟨ho₃, hrecord', -, -⟩ := retargetImports_eq ho₂ (hF.makes _ _ _ ho₁ hread₁ transpiled) himports
    have hg' := save_error ho₃.links record
    exact ⟨ho₃.grows hg', fun bytes => by rw [hg'.file_iff, hrecord', hrecord, hg.file_iff]⟩

/-! ## With the cache -/

theorem recompile_ne_cached {hash : String} : c.recompile file hash t ≠ (t', .ok .cached) := by
  intro h
  cases recompiled h

/-- A file is up to date if there is a compiled file and a record that has the digest. -/
theorem isCurrent_iff {hash : String} : c.isCurrent t file hash = true ↔
    (∃ bytes record, t.read (c.recordPath file) = .ok bytes ∧ Record.decode bytes = .ok record ∧ record.hash = hash) ∧
      t.contains (c.root.join (c.destination file)) = true := by
  unfold isCurrent
  constructor
  · intro h
    split at h
    · next record hload =>
      rw [Bool.and_eq_true, decide_eq_true_eq] at h
      obtain ⟨bytes, hread, hdecode⟩ := Record.read_of_load hload
      exact ⟨⟨bytes, record, hread, hdecode, h.1⟩, h.2⟩
    · cases h
  · rintro ⟨⟨bytes, record, hread, hdecode, hhash⟩, hthere⟩
    rw [Record.load_of_read hread hdecode]
    simp [hhash, hthere]

theorem compileFile_of_error {e : IoError} (hread : t.read (c.root.join (source file)) = .error e) :
    c.compileFile file t = (t, .error (.error (.inaccessible (source file) e))) := by
  unfold compileFile
  rw [hread]

theorem compileFile_of_read {content : Bytes} (hread : t.read (c.root.join (source file)) = .ok content) :
    c.compileFile file t =
      if c.isCurrent t file (Digest.hash content).toHex then (t, .ok .cached)
      else c.recompile file (Digest.hash content).toHex t := by
  unfold compileFile
  rw [hread]

/-- A file cannot be read, or it is up to date, or it is compiled again. -/
theorem compileFile_cases (c : Compiler) (file : SourceFile) (t : FileTree) :
    (∃ e, c.compileFile file t = (t, .error (.error (.inaccessible (source file) e)))) ∨
    ∃ content, t.read (c.root.join (source file)) = .ok content ∧
      (c.isCurrent t file (Digest.hash content).toHex = true ∧ c.compileFile file t = (t, .ok .cached) ∨
        c.compileFile file t = c.recompile file (Digest.hash content).toHex t) := by
  cases hread : t.read (c.root.join (source file)) with
  | error e => exact .inl ⟨e, compileFile_of_error hread⟩
  | ok content =>
    refine .inr ⟨content, rfl, ?_⟩
    rw [compileFile_of_read hread]
    split
    · next hcurrent => exact .inl ⟨hcurrent, rfl⟩
    · exact .inr rfl

/-- A file that is compiled was read. -/
theorem recompile_of_fresh {imports : List Path} (h : c.compileFile file t = (t', .ok (.fresh imports))) :
    ∃ content, t.read (c.root.join (source file)) = .ok content ∧
      c.recompile file (Digest.hash content).toHex t = (t', .ok (.fresh imports)) := by
  rcases c.compileFile_cases file t with ⟨e, heq⟩ | ⟨content, hread, ⟨-, heq⟩ | heq⟩ <;> rw [heq] at h
  · cases h
  · cases h
  · exact ⟨content, hread, h⟩

/-- A file that is up to date has a record with the digest of its source. -/
theorem compileFile_cached (h : c.compileFile file t = (t', .ok .cached)) :
    t' = t ∧ ∃ content bytes record, t.read (c.root.join (source file)) = .ok content ∧
      t.node? (c.recordPlace file) = some (.file bytes) ∧ Record.decode bytes = .ok record ∧
      record.hash = (Digest.hash content).toHex := by
  rcases c.compileFile_cases file t with ⟨e, heq⟩ | ⟨content, hread, ⟨hcurrent, heq⟩ | heq⟩ <;> rw [heq] at h
  · cases h
  · cases h
    obtain ⟨⟨bytes, record, hbytes, hdecode, hhash⟩, -⟩ := isCurrent_iff.1 hcurrent
    exact ⟨rfl, content, bytes, record, hread, node?_of_read hbytes, hdecode, hhash⟩
  · exact absurd h recompile_ne_cached

theorem compileFile_fresh (hF : c.Contract file F) (ho : c.Orderly file t) {imports : List Path}
    (h : c.compileFile file t = (t', .ok (.fresh imports))) :
    ∃ content u, t.read (c.root.join (source file)) = .ok content ∧ c.lookupTree? file t = some u ∧
      c.Orderly file t' ∧ imports = (outcome file (c.names file u) (F content)).2 ∧
      t'.node? (c.target file) = some (.file (outcome file (c.names file u) (F content)).1) ∧
      t'.node? (c.recordPlace file) =
        some (.file (Record.encode ⟨c.destination file, (Digest.hash content).toHex, imports⟩)) := by
  obtain ⟨content, hread, h⟩ := recompile_of_fresh h
  obtain ⟨u, hu⟩ := recompile_fresh hF ho hread h
  exact ⟨content, u, hread, hu⟩

theorem compileFile_failed (hF : c.Contract file F) (ho : c.Orderly file t) {e : Failure CompileError}
    (h : c.compileFile file t = (t', .error e)) :
    c.Orderly file t' ∧ ∀ bytes,
      t'.node? (c.recordPlace file) = some (.file bytes) ↔ t.node? (c.recordPlace file) = some (.file bytes) := by
  rcases c.compileFile_cases file t with ⟨e, heq⟩ | ⟨content, hread, ⟨-, heq⟩ | heq⟩ <;> rw [heq] at h
  · cases h
    exact ⟨ho, fun bytes => .rfl⟩
  · cases h
  · exact recompile_failed hF ho hread h

end Compiler
end Bundler
