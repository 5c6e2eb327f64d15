import Bundler.Proofs.Compile.File
import Bundler.Proofs.Digest
import Bundler.Proofs.Record
/-!
# What the cache answers for

A `History` is any sequence of edits of a source and of attempts to compile it, each of which may
break off at any step. When a file counts as up to date after it, its record is the one of a clean
compilation (`cached_exact`). The compiled file is what a clean compilation makes unless an attempt
has failed since: a failure after the transpiler began leaves the old record valid, so what it left
in the compiled file is taken for good when the source is changed back (`cached_after_failure`).
-/

namespace Bundler.Compiler

open FileTree

variable {c : Compiler} {file : SourceFile} {F : Bytes → Bytes} {names : String → Option String} {t t' : FileTree}
  {saved : Option Bytes} {left : Option (Option Node)}

/-! ## Clean compilations -/

/-- The compiled file that belongs to a source. -/
def cleanText (file : SourceFile) (F : Bytes → Bytes) (names : String → Option String) (content : Bytes) : Bytes :=
  (outcome file names (F content)).1

/-- The record that belongs to a source. -/
def cleanRecord (c : Compiler) (file : SourceFile) (F : Bytes → Bytes) (names : String → Option String)
    (content : Bytes) : Record :=
  ⟨c.destination file, (Digest.hash content).toHex, (outcome file names (F content)).2⟩

/-- When the file is compiled, its specifiers name the modules that `names` says. -/
def LooksUp (c : Compiler) (file : SourceFile) (names : String → Option String) (t : FileTree) : Prop :=
  isScript (source file) = true → ∀ u, c.lookupTree? file t = some u → c.names file u = names

/-- A file that was compiled is the one that belongs to its source, and so is its record. -/
theorem compileFile_clean (hF : c.Contract file F) (ho : c.Orderly file t) {imports : List Path}
    (hnames : c.LooksUp file names t) (h : c.compileFile file t = (t', .ok (.fresh imports))) :
    ∃ content, t.read (c.root.join (source file)) = .ok content ∧ c.Orderly file t' ∧
      t'.node? (c.target file) = some (.file (cleanText file F names content)) ∧
      t'.node? (c.recordPlace file) = some (.file (c.cleanRecord file F names content).encode) := by
  obtain ⟨content, u, hread, hu, ho', himports, htarget, hrecord⟩ := compileFile_fresh hF ho h
  have houtcome : outcome file (c.names file u) (F content) = outcome file names (F content) := by
    unfold outcome
    split
    · next hscript => rw [hnames hscript u hu]
    · rfl
  rw [houtcome] at himports htarget
  subst himports
  exact ⟨content, hread, ho', htarget, hrecord⟩

/-! ## Histories -/

/-- What failed attempts have left in the compiled file, when one more of them made `t'` of `t`: it
counts if it changed that file. -/
def leftBy (c : Compiler) (file : SourceFile) (t t' : FileTree) (left : Option (Option Node)) : Option (Option Node) :=
  if t'.node? (c.target file) = t.node? (c.target file) then left else some (t'.node? (c.target file))

/-- The trees that edits of a source and attempts to compile it lead to, with the source of the last
attempt that came to write the record, and with what failed attempts after it have left in the compiled
file, if they changed it. Below the output directory nothing else is changed. -/
inductive History (c : Compiler) (file : SourceFile) (F : Bytes → Bytes) (names : String → Option String) :
    FileTree → Option Bytes → Option (Option Node) → Prop where
  /-- Nothing was compiled yet. -/
  | start {t : FileTree} (orderly : c.Orderly file t) (target : t.node? (c.target file) = none)
    (record : t.node? (c.recordPlace file) = none) : History c file F names t none none
  /-- Sources, or anything else but the compiled file and its record, are edited. -/
  | edit {t t' : FileTree} {saved : Option Bytes} {left : Option (Option Node)}
    (before : History c file F names t saved left) (orderly : c.Orderly file t')
    (target : t'.node? (c.target file) = t.node? (c.target file))
    (record : t'.node? (c.recordPlace file) = t.node? (c.recordPlace file)) : History c file F names t' saved left
  | cached {t t' : FileTree} {saved : Option Bytes} {left : Option (Option Node)}
    (before : History c file F names t saved left) (made : c.compileFile file t = (t', .ok .cached)) :
    History c file F names t' saved left
  | fresh {t t' : FileTree} {saved : Option Bytes} {left : Option (Option Node)} {content : Bytes} {imports : List Path}
    (before : History c file F names t saved left) (read : t.read (c.root.join (source file)) = .ok content)
    (lookup : c.LooksUp file names t) (made : c.compileFile file t = (t', .ok (.fresh imports))) :
    History c file F names t' (some content) none
  | failed {t t' : FileTree} {saved : Option Bytes} {left : Option (Option Node)} {e : Failure CompileError}
    (before : History c file F names t saved left) (made : c.compileFile file t = (t', .error e)) :
    History c file F names t' saved (c.leftBy file t t' left)
  /-- An attempt breaks off before it writes the record, at any step and with anything in the compiled
  file. -/
  | brokenOff {t t' : FileTree} {saved : Option Bytes} {left : Option (Option Node)}
    (before : History c file F names t saved left) (orderly : c.Orderly file t')
    (record : t'.node? (c.recordPlace file) = t.node? (c.recordPlace file)) :
    History c file F names t' saved (c.leftBy file t t' left)
  /-- An attempt breaks off while it writes the record. -/
  | torn {t t' : FileTree} {saved : Option Bytes} {left : Option (Option Node)} {content part : Bytes}
    (before : History c file F names t saved left) (orderly : c.Orderly file t')
    (read : t.read (c.root.join (source file)) = .ok content)
    (target : t'.node? (c.target file) = some (.file (cleanText file F names content)))
    (record : t'.node? (c.recordPlace file) = some (.file part))
    (written : part <+: (c.cleanRecord file F names content).encode) :
    History c file F names t' (some content) none

/-- What holds after a history: a record that can be read belongs to the source that was compiled last,
and the compiled file is the one that belongs to it, or what failed attempts have left. -/
structure Remembers (c : Compiler) (file : SourceFile) (F : Bytes → Bytes) (names : String → Option String)
    (t : FileTree) (saved : Option Bytes) (left : Option (Option Node)) : Prop where
  orderly : c.Orderly file t
  record : ∀ bytes r, t.node? (c.recordPlace file) = some (.file bytes) → Record.decode bytes = .ok r →
    ∃ content, saved = some content ∧
      ((c.cleanRecord file F names content).Fits → bytes = (c.cleanRecord file F names content).encode)
  target : ∀ content, saved = some content →
    t.node? (c.target file) = left.getD (some (.file (cleanText file F names content)))

/-- A failed attempt leaves the record as it was, and the compiled file as it may be. -/
theorem Remembers.failed (h : c.Remembers file F names t saved left) (ho : c.Orderly file t')
    (hrecord : ∀ bytes, t'.node? (c.recordPlace file) = some (.file bytes) →
      t.node? (c.recordPlace file) = some (.file bytes)) :
    c.Remembers file F names t' saved (c.leftBy file t t' left) where
  orderly := ho
  record bytes r hbytes hdecode := h.record bytes r (hrecord bytes hbytes) hdecode
  target content hsaved := by
    unfold leftBy
    split
    · next hsame => rw [hsame, h.target content hsaved]
    · rw [Option.getD_some]

theorem remembers (hF : c.Contract file F) (h : c.History file F names t saved left) :
    c.Remembers file F names t saved left := by
  induction h with
  | start orderly _ record => exact ⟨orderly, fun bytes r hbytes => by simp [record] at hbytes, nofun⟩
  | edit _ orderly target record ih =>
    refine ⟨orderly, fun bytes r hbytes => ih.record bytes r ?_, fun content hsaved => ?_⟩
    · rw [← record]
      exact hbytes
    · rw [target]
      exact ih.target content hsaved
  | cached _ made ih =>
    obtain ⟨rfl, -⟩ := compileFile_cached made
    exact ih
  | fresh _ read lookup made ih =>
    obtain ⟨content, hread, ho, htarget, hrecord⟩ := compileFile_clean hF ih.orderly lookup made
    rw [read] at hread
    cases hread
    refine ⟨ho, fun bytes r hbytes _ => ⟨_, rfl, fun _ => ?_⟩, fun content hsaved => ?_⟩
    · rw [hrecord] at hbytes
      simpa using hbytes.symm
    · cases hsaved
      exact htarget
  | failed _ made ih =>
    obtain ⟨ho, hrecord⟩ := compileFile_failed hF ih.orderly made
    exact ih.failed ho fun bytes => (hrecord bytes).1
  | brokenOff _ orderly record ih =>
    refine ih.failed orderly fun bytes hbytes => ?_
    rw [← record]
    exact hbytes
  | torn _ orderly _ target record written ih =>
    refine ⟨orderly, fun bytes r hbytes hdecode => ⟨_, rfl, fun fits => ?_⟩, fun content hsaved => ?_⟩
    · rw [record] at hbytes
      cases hbytes
      exact Record.eq_of_decode fits written hdecode
    · cases hsaved
      exact target

/-! ## A history with a failure -/

/-- Copies the source, and then refuses one that is not empty. -/
def emptyOnly : Transpiler := .custom fun src dst t =>
  match t.read src with
  | .error _ => (t, .failed "unreadable")
  | .ok content =>
    match t.write dst content with
    | .error _ => (t, .failed "unwritable")
    | .ok t' => (t', if content = [] then .done else .failed "not empty")

/-- Compiles what `emptyOnly` takes. -/
def picky : Compiler := ⟨⟨"/w"⟩, ⟨"build"⟩, ⟨[], emptyOnly⟩, 1, fun _ _ => .error .notFound⟩

theorem picky_transpile (file : SourceFile) (t : FileTree) :
    picky.transpile file t = emptyOnly.run picky.programs picky.root (picky.root.join (source file))
      (picky.root.join (picky.destination file)) t := by
  have hget : picky.transpilers.get (source file) = emptyOnly := by
    unfold Transpilers.get
    cases (source file).extension? <;> rfl
  rw [transpile, hget]

/-- It fails and leaves the tree as it is, or it writes a copy of the source. -/
theorem picky_cases {file : SourceFile} {t t' : FileTree} {r : Except (Failure TranspileError) Unit} {content : Bytes}
    (hread : t.read (picky.root.join (source file)) = .ok content) (h : picky.transpile file t = (t', r)) :
    t' = t ∧ r ≠ .ok () ∨ t.write (picky.root.join (picky.destination file)) content = .ok t' := by
  rw [picky_transpile, emptyOnly, Transpiler.run, hread] at h
  dsimp only at h
  cases hwrite : t.write (picky.root.join (picky.destination file)) content with
  | error e =>
    rw [hwrite] at h
    cases h
    exact .inl ⟨rfl, nofun⟩
  | ok t₁ =>
    rw [hwrite] at h
    by_cases hempty : content = []
    · rw [if_pos hempty] at h
      cases h
      exact .inr rfl
    · rw [if_neg hempty] at h
      cases h
      exact .inr rfl

/-- What it makes is a copy of the source. -/
theorem picky_contract (file : SourceFile) : picky.Contract file id := by
  constructor
  · intro t t' r content ho hread h
    rcases picky_cases hread h with ⟨rfl, -⟩ | hwrite
    · exact ⟨ho, rfl⟩
    · exact ⟨ho.write hwrite, node?_write_of_alone hwrite ho.record (recordPlace_ne_target picky file)⟩
  · intro t t' content _ hread h
    rcases picky_cases hread h with ⟨-, hne⟩ | hwrite
    · exact absurd rfl hne
    · exact node?_write hwrite

/-- A source and its compiled counterpart. -/
def script : SourceFile := (⟨"src"⟩, ⟨"a.js"⟩)

/-- A directory with the source and with what lies below the output directory. -/
def disk (content : Bytes) (built : List (Location × Node)) : FileTree :=
  ⟨(["w"], .directory) :: (["w", "src"], .directory) :: (["w", "src", "a.js"], .file content) :: built, [], []⟩

/-- The record of the empty source. -/
def emptyRecord : Record := ⟨⟨"build/src/a.js"⟩, (Digest.hash []).toHex, []⟩

/-- Below the output directory, a compiled file and the record of the empty source. -/
def built (compiled : Bytes) : List (Location × Node) :=
  [(["w", "build"], .directory), (["w", "build", "src"], .directory), (["w", "build", "src", "a.js"], .file compiled),
    (["w", "build", "src", "a.js.meta.cbor"], .file emptyRecord.encode)]

theorem outcome_empty (names : String → Option String) : outcome script names [] = ([], []) := by
  unfold outcome
  split <;> rfl

theorem places_script :
    picky.target script = ["w", "build", "src", "a.js"] ∧
      picky.recordPlace script = ["w", "build", "src", "a.js.meta.cbor"] ∧
      ((disk [] []).read (picky.root.join (source script))).toOption = some [] ∧
      ((disk [] (built [0x78])).read (picky.root.join (source script))).toOption = some [] := by decide

theorem compile_script :
    ((picky.compileFile script (disk [] [])).1, (picky.compileFile script (disk [] [])).2.toOption) =
        (⟨(built []).reverse ++ (disk [] []).entries, [], []⟩, some (.fresh [])) ∧
      (picky.compileFile script (disk [0x78] (built []))).1.node? ["w", "build", "src", "a.js"] = some (.file [0x78]) ∧
      (picky.compileFile script (disk [0x78] (built []))).2.toOption = none ∧
      ((picky.compileFile script (disk [] (built [0x78]))).1,
        (picky.compileFile script (disk [] (built [0x78]))).2.toOption) = (disk [] (built [0x78]), some .cached) := by
  decide +kernel

theorem disk_script :
    (disk [0x78] (built [])).node? ["w", "build", "src", "a.js"] = some (.file []) ∧
      (disk [0x78] (built [])).node? ["w", "build", "src", "a.js.meta.cbor"] = some (.file emptyRecord.encode) ∧
      (disk [] (built [0x78])).node? ["w", "build", "src", "a.js"] = some (.file [0x78]) ∧
      (disk [] (built [0x78])).node? ["w", "build", "src", "a.js.meta.cbor"] = some (.file emptyRecord.encode) :=
  ⟨rfl, rfl, rfl, rfl⟩

/-- The empty source is compiled, then one that the transpiler refuses after it has written the compiled
file; then the source is empty again. -/
theorem exists_history :
    ∃ names, picky.History script id names (disk [] (built [0x78])) (some []) (some (some (.file [0x78]))) := by
  obtain ⟨names, hnames⟩ : ∃ names, names = picky.names script ((picky.lookupTree? script (disk [] [])).getD default) :=
    ⟨_, rfl⟩
  obtain ⟨htarget, hplace, hread, -⟩ := places_script
  obtain ⟨hempty, hleft, hrefused, -⟩ := compile_script
  obtain ⟨htarget₁, hrecord₁, htarget₂, hrecord₂⟩ := disk_script
  have start : picky.History script id names (disk [] []) none none :=
    .start (orderly_of_links rfl) (by rw [htarget]; rfl) (by rw [hplace]; rfl)
  have compiled := start.fresh (eq_of_toOption hread) (fun _ u hu => by rw [hnames, hu, Option.getD_some])
    (pair_of_toOption hempty)
  have edited : picky.History script id names (disk [0x78] (built [])) (some []) none := by
    refine compiled.edit (orderly_of_links rfl) ?_ ?_
    · rw [htarget, htarget₁]
      rfl
    · rw [hplace, hrecord₁]
      rfl
  obtain ⟨e, he⟩ := exists_of_toOption hrefused
  have failed := edited.failed he
  rw [leftBy, htarget, hleft, htarget₁, if_neg (by decide)] at failed
  have hrecord := (compileFile_failed (picky_contract script) (remembers (picky_contract script) edited).orderly he).2
  rw [hplace] at hrecord
  refine ⟨names, failed.edit (orderly_of_links rfl) ?_ ?_⟩
  · rw [htarget, hleft, htarget₂]
  · rw [hplace, (hrecord emptyRecord.encode).2 hrecord₁, hrecord₂]

/-! ## What the cache answers for -/

/-- When a file counts as up to date after any history, nothing is touched, and its record is the one
that belongs to its source. The compiled file is the one that belongs to it too, unless attempts that
failed after the last one that came to write the record have left something else there. -/
theorem cached_exact (hF : c.Contract file F) (h : c.History file F names t saved left)
    (hit : c.compileFile file t = (t', .ok .cached))
    (fits : ∀ content, saved = some content → (c.cleanRecord file F names content).Fits)
    (noCollision : ∀ content content', saved = some content → t.read (c.root.join (source file)) = .ok content' →
      Digest.hash content = Digest.hash content' → content = content') :
    t' = t ∧ ∃ content, t.read (c.root.join (source file)) = .ok content ∧
      t.node? (c.recordPlace file) = some (.file (c.cleanRecord file F names content).encode) ∧
      t.node? (c.target file) = left.getD (some (.file (cleanText file F names content))) ∧
      ∀ u u' imports, c.Orderly file u → u.node? (c.target file) = none → u.node? (c.recordPlace file) = none →
        u.read (c.root.join (source file)) = .ok content → c.LooksUp file names u →
        c.compileFile file u = (u', .ok (.fresh imports)) →
        t.node? (c.recordPlace file) = u'.node? (c.recordPlace file) ∧
          (t.node? (c.target file) = u'.node? (c.target file) ↔ ∀ n, left = some n → n = u'.node? (c.target file)) := by
  obtain ⟨rfl, content, bytes, record, hread, hbytes, hdecode, hhash⟩ := compileFile_cached hit
  have past := remembers hF h
  obtain ⟨content', hsaved, hrecord⟩ := past.record bytes record hbytes hdecode
  have hrecord := hrecord (fits _ hsaved)
  -- the record that was read is the one of the last source, so its digest is the digest of both
  have hsame : content' = content := by
    have hback := Record.decode_encode (fits _ hsaved) []
    rw [List.append_nil, ← hrecord, hdecode] at hback
    rw [Except.ok.injEq] at hback
    rw [hback] at hhash
    exact noCollision _ _ hsaved hread (Digest.toHex_injective hhash)
  subst hsame
  have htarget := past.target _ hsaved
  refine ⟨rfl, content', hread, hrecord ▸ hbytes, htarget, fun u u' imports hu _ _ hcontent hnames made => ?_⟩
  obtain ⟨clean, hclean, -, hcleanTarget, hcleanRecord⟩ := compileFile_clean hF hu hnames made
  rw [hcontent] at hclean
  cases hclean
  refine ⟨(hrecord ▸ hbytes).trans hcleanRecord.symm, ?_⟩
  simp only [htarget, hcleanTarget]
  cases left <;> simp

/-- After that history the source counts as up to date, with what the failed attempt has left. Compiled
afresh it would be empty. -/
theorem cached_after_failure :
    ∃ names, picky.History script id names (disk [] (built [0x78])) (some []) (some (some (.file [0x78]))) ∧
      picky.compileFile script (disk [] (built [0x78])) = (disk [] (built [0x78]), .ok .cached) ∧
      (disk [] (built [0x78])).node? (picky.target script) = some (.file [0x78]) ∧
      (picky.compileFile script (disk [] [])).1.node? (picky.target script) = some (.file []) := by
  obtain ⟨names, history⟩ := exists_history
  obtain ⟨htarget, -, -, hread⟩ := places_script
  obtain ⟨hempty, -, -, hback⟩ := compile_script
  have hback := pair_of_toOption hback
  have fits : (picky.cleanRecord script id names []).Fits := by
    rw [cleanRecord, id, outcome_empty]
    exact ⟨by decide +kernel, by decide +kernel, by decide, nofun⟩
  obtain ⟨-, content, -, -, hleft, -⟩ := cached_exact (picky_contract script) history hback
    (fun content hsaved => by cases hsaved; exact fits)
    (fun content content' hsaved hcontent _ => by
      rw [eq_of_toOption hread] at hcontent
      cases hsaved
      cases hcontent
      rfl)
  refine ⟨names, history, hback, hleft, ?_⟩
  rw [pair_of_toOption hempty, htarget]
  rfl

end Bundler.Compiler
