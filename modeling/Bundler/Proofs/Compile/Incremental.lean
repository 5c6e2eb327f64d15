import Bundler.Proofs.Compile.Renewed
/-!
# Compiling again and again

Source trees are compiled one after the other into one output directory (`Built`). The files of the last one are in
the end what they are when it is compiled alone (`incremental_exact`). It is not so where an import looks at a
directory that was made for a file that is gone, or a source root leads through one (`stale_directories`).
-/

namespace Bundler.Compiler

open FileTree
open Run (Reaches)

variable {c : Compiler} {F : SourceFile → Bytes → Bytes} {t u v w T : FileTree} {all Ts : List FileTree}
  {sources : List Path} {f g : SourceFile} {l : Location}

/-! ## Any number of source trees -/

/-- Source trees were compiled one after the other, the first of the list last, each time with success. -/
inductive Built (c : Compiler) (sources : List Path) : List FileTree → FileTree → Prop
  | none (v : FileTree) : Built c sources [] v
  | next {Ts : List FileTree} {T v u u' : FileTree} (h : Built c sources Ts v) (hlaid : c.Laid sources Ts T v u)
    (hrun : c.Succeeds sources u u') : Built c sources (T :: Ts) u'

section All

variable (hc : c.Consistent F sources all) (hh : c.Hidden F sources all) (ht : c.Telling F sources all)
include hc hh ht

/-- The outputs of every file are the ones that it has in a source tree where it is found. -/
theorem Built.clean (h : c.Built sources Ts v) (hTs : ∀ T ∈ Ts, T ∈ all) :
    ∀ f, c.Found sources Ts f → ∃ T ∈ Ts, f ∈ c.discover T sources ∧ c.Clean F T f v := by
  induction h with
  | none => exact fun f ⟨T, hT, _⟩ => absurd hT List.not_mem_nil
  | next _ hlaid hrun ih =>
    rw [List.forall_mem_cons] at hTs
    exact (clean_next hc hh ht hTs.1 hTs.2 (ih hTs.2) hlaid hrun).2

theorem Built.clean_last (h : c.Built sources (T :: Ts) u) (hTs : ∀ T' ∈ T :: Ts, T' ∈ all)
    (hf : f ∈ c.discover T sources) : c.Clean F T f u := by
  rw [List.forall_mem_cons] at hTs
  cases h with
  | next h hlaid hrun => exact (clean_next hc hh ht hTs.1 hTs.2 (h.clean hc hh ht hTs.2) hlaid hrun).1 f hf

end All

/-- A source tree that is compiled alone is the first one that is compiled. -/
theorem Succeeds.built (hp : T.Proper) (h : c.Succeeds sources T w) : c.Built sources [T] w :=
  .next (.none T) ⟨hp, fun _ _ => .inl rfl, fun _ _ => rfl, rfl⟩ h

/-- Compiling incrementally gives what compiling from scratch gives. After any source trees were compiled into one
output directory one after the other, the outputs of the files of the last one are files, and the same files as when
this tree alone is compiled, in whatever order each of these runs compiles its files. And every run of the task graph
that answers with a report is one of these. -/
theorem incremental_exact (hc : c.Consistent F sources (T :: Ts)) (hh : c.Hidden F sources (T :: Ts))
    (ht : c.Telling F sources (T :: Ts)) (h : c.Built sources (T :: Ts) u) (hclean : c.Succeeds sources T w) :
    (∀ f ∈ c.discover T sources, ∀ l ∈ c.outputs f,
      ∃ bytes, u.node? l = some (.file bytes) ∧ w.node? l = some (.file bytes)) ∧
    (∀ t r report, Reaches (c.graph (c.discover t sources)) (c.task (c.discover t sources)) (startRun false t) r →
      r.Returned → conclude r = .ok report → c.Succeeds sources t r.world.tree) ∧
    ∀ t v report, c.compileTree sources false t = (v, .ok report) → c.Succeeds sources t v := by
  refine ⟨fun f hf l hl => ?_, fun t r report => succeeds_of_run, fun t v report => succeeds_of_compileTree⟩
  have hlast := h.clean_last hc hh ht (fun _ => id) hf
  have halone := (hclean.built (hc.proper T List.mem_cons_self)).clean_last hc hh ht (by simp) hf
  obtain ⟨bytes, hbytes⟩ := hlast.file hl
  exact ⟨bytes, hbytes, (halone.unique hlast hl).trans hbytes⟩

/-! ## Sources that are copied -/

/-- Nothing is made of a source but a copy. -/
def copied (_ : SourceFile) (content : Bytes) : Bytes := content

theorem overwrites_of_copy (hget : c.transpilers.get (source f) = .copy) (hne : c.sourcePlace f ≠ c.target f) :
    c.Overwrites f (copied f) where
  tidy := tidy_of_copy hget hne
  makes _ _ _ ho hread h := node?_of_transpile hget hne ho hread h

/-- Over the entries of a source tree there are those of the outputs of some files. -/
def Covers (c : Compiler) (found : List (FileTree × List SourceFile)) (T v u : FileTree) : Prop :=
  u.Proper ∧ u.links = T.links ∧
    (∀ l ∈ u.entries.map Prod.fst ++ T.entries.map Prod.fst,
      u.node? l = T.node? l ∨ (∃ y ∈ found, ∃ g ∈ y.2, l ∈ c.outputs g) ∨
        (∃ y ∈ found, ∃ g ∈ y.2, l ∈ c.way g) ∧ T.node? l = none ∧ u.node? l = some .directory) ∧
    ∀ x ∈ found, ∀ f ∈ x.2, ∀ l ∈ c.outputs f, u.node? l = v.node? l

instance (c : Compiler) (found : List (FileTree × List SourceFile)) (T v u : FileTree) :
    Decidable (c.Covers found T v u) := inferInstanceAs (Decidable (_ ∧ _))

/-- Source trees, each with its files: their outputs are apart from each other, outside the source roots, not there yet
and never looked at, the imports name the same modules in all of them, and the records can be read back and told
apart. -/
def Together (c : Compiler) (sources : List Path) (found : List (FileTree × List SourceFile)) : Prop :=
  (∀ x ∈ found, c.Listed x.1 sources x.2 ∧ x.1.Proper ∧ x.1.links = []) ∧
    (∀ x ∈ found, ∀ f ∈ x.2, ∀ l ∈ c.outputs f, (∀ root ∈ sources, ¬ place (c.root.join root) <+: l) ∧
      ∀ y ∈ found, y.1.node? l = none ∧ ∀ g ∈ y.2, l ∈ c.outputs g → f = g) ∧
    (∀ x ∈ found, ∀ f ∈ x.2, ∀ s ∈ c.mentioned copied x.1 f,
      (∀ y ∈ found, c.names f y.1 s = c.names f x.1 s) ∧
        ∀ p ∈ c.lookedAt x.1 f s, ∀ y ∈ found, ∀ g ∈ y.2, place (c.root.join p) ∉ c.outputs g) ∧
    ∀ x ∈ found, ∀ f ∈ x.2,
      (∀ content ∈ (x.1.read (c.root.join (source f))).toOption,
        (⟨c.destination f, "", (outcome f (c.names f x.1) content).2⟩ : Record).Fits) ∧
      ∀ y ∈ found, f ∈ y.2 →
        (x.1.read (c.root.join (source f))).toOption = (y.1.read (c.root.join (source f))).toOption ∨
          (x.1.read (c.root.join (source f))).toOption.map Digest.hash ≠
            (y.1.read (c.root.join (source f))).toOption.map Digest.hash

instance (c : Compiler) (sources : List Path) (found : List (FileTree × List SourceFile)) :
    Decidable (c.Together sources found) := inferInstanceAs (Decidable (_ ∧ _))

/-- The directories that are made for outputs are neither looked at nor climbed out of. -/
def Unclimbed (c : Compiler) (sources : List Path) (found : List (FileTree × List SourceFile)) : Prop :=
  ∀ x ∈ found, (∀ f ∈ x.2, ∀ s ∈ c.mentioned copied x.1 f, ∀ p ∈ c.lookedAt x.1 f s,
      Past (fun l => (∃ y ∈ found, ∃ g ∈ y.2, l ∈ c.way g) ∧ x.1.node? l = none) (c.root.join p)) ∧
    ∀ root ∈ sources, Past (fun l => (∃ y ∈ found, ∃ g ∈ y.2, l ∈ c.way g) ∧ x.1.node? l = none) (c.root.join root)

instance (c : Compiler) (sources : List Path) (found : List (FileTree × List SourceFile)) :
    Decidable (c.Unclimbed sources found) := inferInstanceAs (Decidable (∀ _ ∈ _, _))

section Copied

variable {found : List (FileTree × List SourceFile)}

theorem Together.discover (h : c.Together sources found) : ∀ x ∈ found, c.discover x.1 sources = x.2 :=
  fun x hx => discover_of_listed (h.1 x hx).1

theorem mem_found (hfound : ∀ x ∈ found, c.discover x.1 sources = x.2) :
    c.Found sources (found.map Prod.fst) f ↔ ∃ x ∈ found, f ∈ x.2 := by
  constructor
  · rintro ⟨T, hT, hf⟩
    obtain ⟨x, hx, rfl⟩ := List.mem_map.1 hT
    exact ⟨x, hx, hfound x hx ▸ hf⟩
  · rintro ⟨x, hx, hf⟩
    exact ⟨x.1, List.mem_map_of_mem hx, (hfound x hx).symm ▸ hf⟩

theorem consistent_of_copy (hget : ∀ path, c.transpilers.get path = .copy) (h : c.Together sources found) :
    c.Consistent copied sources (found.map Prod.fst) := by
  have hfound := h.discover
  obtain ⟨hproper, hplaces, himports, -⟩ := h
  constructor
  · exact List.forall_mem_map.2 fun x hx => (hproper x hx).2.1
  · refine List.forall_mem_map.2 fun x hx group hgroup => ?_
    rw [(hproper x hx).2.2] at hgroup
    cases hgroup
  · rintro T hT l ⟨f, hf, hl⟩
    obtain ⟨x, hx, hf⟩ := (mem_found hfound).1 hf
    obtain ⟨y, hy, rfl⟩ := List.mem_map.1 hT
    exact ((hplaces x hx f hf l hl).2 y hy).1
  · rintro f hf
    obtain ⟨x, hx, hf⟩ := (mem_found hfound).1 hf
    refine overwrites_of_copy (hget _) fun heq => ?_
    -- the source lies below its root, the compiled file does not
    have hp := (hproper x hx).2.1
    rw [← hfound x hx] at hf
    obtain ⟨hroot, -, names, hne, hpath, content, hfile⟩ := (mem_discover hp).1 hf
    have hspelled : Spelled names := fun name hname => hp.spelled hfile name (List.mem_append_right _ hname)
    apply (hplaces x hx f (hfound x hx ▸ hf) (c.target f) List.mem_cons_self).1 f.1 hroot
    rw [← heq, sourcePlace_eq hne hspelled hpath]
    exact List.prefix_append _ _
  · rintro f g hf hg ⟨l, hl, hl'⟩
    obtain ⟨x, hx, hf⟩ := (mem_found hfound).1 hf
    obtain ⟨y, hy, hg⟩ := (mem_found hfound).1 hg
    exact ((hplaces x hx f hf l hl).2 y hy).2 g hg hl'
  · rintro l ⟨f, hf, hl⟩
    obtain ⟨x, hx, hf⟩ := (mem_found hfound).1 hf
    exact (hplaces x hx f hf l hl).1
  · intro T hT f hf s hs T' hT'
    obtain ⟨x, hx, rfl⟩ := List.mem_map.1 hT
    obtain ⟨y, hy, rfl⟩ := List.mem_map.1 hT'
    exact (himports x hx f (hfound x hx ▸ hf) s hs).1 y hy
  · rintro T hT f hf s hs p hp ⟨g, hg, hl⟩
    obtain ⟨x, hx, rfl⟩ := List.mem_map.1 hT
    obtain ⟨y, hy, hg⟩ := (mem_found hfound).1 hg
    exact (himports x hx f (hfound x hx ▸ hf) s hs).2 p hp y hy g hg hl

theorem telling_of_copy (h : c.Together sources found) : c.Telling copied sources (found.map Prod.fst) := by
  have hfound := h.discover
  obtain ⟨-, -, -, hrecords⟩ := h
  constructor
  · intro T hT f hf content hread
    obtain ⟨x, hx, rfl⟩ := List.mem_map.1 hT
    have hfits := (hrecords x hx f (hfound x hx ▸ hf)).1 content (by rw [hread]; rfl)
    refine ⟨hfits.filename, ?_, hfits.imports, hfits.import_⟩
    calc (Utf8.encode (Digest.hash content).toHex).length
        ≤ 4 * (Digest.hash content).toHex.toList.length := Utf8.length_encode_le _
      _ = 256 := by rw [(Digest.isHex_toHex content).1]
      _ < Cbor.wordCount := by decide
  · intro T hT T' hT' f hf hf' content content' hread hread' hhash
    obtain ⟨x, hx, rfl⟩ := List.mem_map.1 hT
    obtain ⟨y, hy, rfl⟩ := List.mem_map.1 hT'
    have hsame := (hrecords x hx f (hfound x hx ▸ hf)).2 y hy (hfound y hy ▸ hf')
    rw [hread, hread'] at hsame
    exact Option.some.inj (hsame.resolve_right fun hne => hne (congrArg some hhash))

section Found

variable (hfound : ∀ x ∈ found, c.discover x.1 sources = x.2)
include hfound

theorem hidden_of_found (hpast : c.Unclimbed sources found) : c.Hidden copied sources (found.map Prod.fst) := by
  have hway {l : Location} (hl : c.AnyWay sources (found.map Prod.fst) l) : ∃ y ∈ found, ∃ g ∈ y.2, l ∈ c.way g := by
    obtain ⟨g, hg, hl⟩ := hl
    obtain ⟨y, hy, hg⟩ := (mem_found hfound).1 hg
    exact ⟨y, hy, g, hg, hl⟩
  constructor
  · intro T hT f hf s hs p hp k hk hR
    obtain ⟨x, hx, rfl⟩ := List.mem_map.1 hT
    exact (hpast x hx).1 f (hfound x hx ▸ hf) s hs p hp k hk ⟨hway hR.1, hR.2⟩
  · intro T hT root hroot k hk hR
    obtain ⟨x, hx, rfl⟩ := List.mem_map.1 hT
    exact (hpast x hx).2 root hroot k hk ⟨hway hR.1, hR.2⟩

theorem laid_of_found (h : c.Covers found T v u) : c.Laid sources (found.map Prod.fst) T v u := by
  obtain ⟨hproper, hlinks, hentries, houtputs⟩ := h
  refine ⟨hproper, fun l hl => ?_, fun l ⟨f, hf, hl⟩ => ?_, hlinks⟩
  · by_cases hmem : l ∈ u.entries.map Prod.fst ++ T.entries.map Prod.fst
    · rcases hentries l hmem with heq | ⟨y, hy, g, hg, hout⟩ | ⟨⟨y, hy, g, hg, hway⟩, hmade⟩
      · exact .inl heq
      · exact absurd ⟨g, (mem_found hfound).2 ⟨y, hy, hg⟩, hout⟩ hl
      · exact .inr ⟨⟨g, (mem_found hfound).2 ⟨y, hy, hg⟩, hway⟩, hmade⟩
    · left
      rw [List.mem_append, not_or] at hmem
      have hnone {t : FileTree} (hl : l ∉ t.entries.map Prod.fst) : t.entries.lookup l = none :=
        List.lookup_eq_none_iff.2 fun e he => bne_iff_ne.2 fun heq => hl (heq ▸ List.mem_map_of_mem he)
      unfold node?
      rw [hnone hmem.1, hnone hmem.2]
  · obtain ⟨x, hx, hf⟩ := (mem_found hfound).1 hf
    exact houtputs x hx f hf l hl

end Found

end Copied

/-! ## A script that is edited -/

/-- One file is compiled, and then another. -/
theorem succeeds_of_two (hperm : [f, g].Perm (c.discover t sources)) (hg : (c.compileFile g t).2.toOption.isSome)
    (hf : (c.compileFile f (c.compileFile g t).1).2.toOption.isSome) :
    c.Succeeds sources t (c.compileFile f (c.compileFile g t).1).1 := by
  obtain ⟨x, hx⟩ := exists_of_isSome hg
  obtain ⟨y, hy⟩ := exists_of_isSome hf
  exact ⟨[f, g], hperm, .next (.next .none hx) hy⟩

/-- The sources of one tree, and what lies below `build` in another. -/
def withBuild (sources compiled : FileTree) : FileTree :=
  ⟨sources.entries ++ compiled.entries.filter fun e => ["w", "build"].isPrefixOf e.1, [], []⟩

/-- A script that imports another one with some text. -/
def importing (content : Bytes) : FileTree :=
  ⟨[(["w"], .directory), (["w", "src"], .directory), (["w", "src", "a.js"], .file (Utf8.encode "require(\"./x\")")),
    (["w", "src", "x.js"], .file content)], [], []⟩

/-- The importing script. -/
def importer : SourceFile := (⟨"src"⟩, ⟨"a.js"⟩)

/-- The imported script. -/
def imported : SourceFile := (⟨"src"⟩, ⟨"x.js"⟩)

/-- The scripts were compiled, the imported one last. -/
def compiledScripts : FileTree := (copier.compileFile imported (copier.compileFile importer (importing [])).1).1

/-- Then the imported script was edited. -/
def editedScripts : FileTree := withBuild (importing [0x79]) compiledScripts

/-- The two source trees, the last one first. -/
def importingTrees : List (FileTree × List SourceFile) :=
  [(importing [0x79], [importer, imported]), (importing [], [importer, imported])]

theorem compiles_importing :
    (copier.compileFile importer (importing [])).2.toOption.isSome ∧
      (copier.compileFile imported (copier.compileFile importer (importing [])).1).2.toOption.isSome := by decide

/-- The scripts are compiled from scratch, the imported one first. -/
theorem compiles_edited_alone :
    (copier.compileFile imported (importing [0x79])).2.toOption.isSome ∧
      (copier.compileFile importer (copier.compileFile imported (importing [0x79])).1).2.toOption.isSome ∧
      (copier.compileFile importer (copier.compileFile imported (importing [0x79])).1).1.node?
          (copier.target importer) =
        some (.file (Utf8.encode "require(\"src/x.js\")")) := by decide

/-- The imported script was edited, and the importing one counts as up to date: its output is what it is when both
scripts are compiled from scratch, in the other order. -/
theorem incremental_exact_edited :
    ∃ u w, copier.Built [⟨"src"⟩] [importing [0x79], importing []] u ∧
      copier.Succeeds [⟨"src"⟩] (importing [0x79]) w ∧
      (∀ f ∈ [importer, imported], ∀ l ∈ copier.outputs f,
        ∃ bytes, u.node? l = some (.file bytes) ∧ w.node? l = some (.file bytes)) ∧
      u.node? (copier.target importer) = some (.file (Utf8.encode "require(\"src/x.js\")")) := by
  have htogether : copier.Together [⟨"src"⟩] importingTrees := by decide +kernel
  have hunclimbed : copier.Unclimbed [⟨"src"⟩] importingTrees := by decide +kernel
  have hcovers :
      copier.Covers [(importing [], [importer, imported])] (importing [0x79]) compiledScripts editedScripts := by
    decide +kernel
  have hlisted : copier.Listed editedScripts [⟨"src"⟩] [importer, imported] := by decide +kernel
  have hproper := (htogether.1 _ (List.mem_cons_of_mem _ List.mem_cons_self)).2.1
  obtain ⟨hnow, hbefore⟩ := List.forall_mem_cons.1 htogether.discover
  obtain ⟨hfirst, hthen⟩ := compiles_importing
  obtain ⟨hclean, hlast, htext⟩ := compiles_edited_alone
  -- of the edited scripts, the importing one is not compiled again
  obtain ⟨hcached, hedited⟩ : (copier.compileFile importer editedScripts).2.toOption = some .cached ∧
      (copier.compileFile imported (copier.compileFile importer editedScripts).1).2.toOption.isSome := by decide +kernel
  have hcompiled : copier.Succeeds [⟨"src"⟩] (importing []) compiledScripts :=
    succeeds_of_two (List.forall_mem_singleton.1 hbefore ▸ .swap _ _ _) hfirst hthen
  have hagain : copier.Succeeds [⟨"src"⟩] editedScripts _ :=
    succeeds_of_two (discover_of_listed hlisted ▸ .swap _ _ _) (by rw [hcached]; rfl) hedited
  have hscratch : copier.Succeeds [⟨"src"⟩] (importing [0x79]) _ := succeeds_of_two (hnow ▸ .refl _) hclean hlast
  have hbuilt := (hcompiled.built hproper).next (laid_of_found hbefore hcovers) hagain
  have hsame := (incremental_exact (consistent_of_copy get_default htogether)
    (hidden_of_found htogether.discover hunclimbed) (telling_of_copy htogether) hbuilt hscratch).1
  rw [hnow] at hsame
  refine ⟨_, _, hbuilt, hscratch, hsame, ?_⟩
  obtain ⟨bytes, hu, hw⟩ := hsame importer List.mem_cons_self _ List.mem_cons_self
  rw [hu, ← htext, hw]

/-! ## Directories that stay behind -/

/-- Although the source trees go together, the last one does not end as it does when it is compiled alone. -/
def Stale (c : Compiler) (F : SourceFile → Bytes → Bytes) (sources : List Path) (T : FileTree) (Ts : List FileTree) :
    Prop :=
  c.Consistent F sources (T :: Ts) ∧ c.Telling F sources (T :: Ts) ∧
    ∃ u w, c.Built sources (T :: Ts) u ∧ c.Succeeds sources T w ∧
      ∃ f ∈ c.discover T sources, ∃ l ∈ c.outputs f, u.node? l ≠ w.node? l

theorem succeeds_of_one (hfound : c.discover t sources = [f]) (hf : (c.compileFile f t).2.toOption.isSome) :
    c.Succeeds sources t (c.compileFile f t).1 := by
  obtain ⟨x, hx⟩ := exists_of_isSome hf
  exact ⟨[f], hfound ▸ .refl _, .next .none hx⟩

/-- A library. -/
def withLibrary : FileTree :=
  ⟨[(["w"], .directory), (["w", "src"], .directory), (["w", "src", "lib"], .directory),
    (["w", "src", "lib", "x.js"], .file [])], [], []⟩

/-- The library's file. -/
def library : SourceFile := (⟨"src"⟩, ⟨"lib/x.js"⟩)

/-- The library is gone. A script imports the directory where its output was. -/
def withImport : FileTree :=
  ⟨[(["w"], .directory), (["w", "src"], .directory),
    (["w", "src", "a.js"], .file (Utf8.encode "require(\"../build/src/lib\")"))], [], []⟩

/-- The library was compiled. -/
def compiledLibrary : FileTree := (copier.compileFile library withLibrary).1

/-- The script, and what the library was compiled to. -/
def importOverLibrary : FileTree := withBuild withImport compiledLibrary

/-- One script. -/
def withScript : FileTree :=
  ⟨[(["w"], .directory), (["w", "src"], .directory), (["w", "src", "a.js"], .file [])], [], []⟩

/-- The script was compiled. -/
def compiledScript : FileTree := (copier.compileFile importer withScript).1

/-- The same script, found in another way. -/
def roundabout : SourceFile := (⟨"build/../src"⟩, ⟨"a.js"⟩)

theorem stale_withImport : copier.Stale copied [⟨"src"⟩] withImport [withLibrary] := by
  have htogether : copier.Together [⟨"src"⟩] [(withImport, [importer]), (withLibrary, [library])] := by decide +kernel
  have hlibrary : (copier.compileFile library withLibrary).2.toOption.isSome := by decide +kernel
  have hcovers : copier.Covers [(withLibrary, [library])] withImport compiledLibrary importOverLibrary := by
    decide +kernel
  have hlisted : copier.Listed importOverLibrary [⟨"src"⟩] [importer] := by decide +kernel
  -- over the library's directory the script is compiled to another text than without it
  obtain ⟨hover, halone, hne⟩ : (copier.compileFile importer importOverLibrary).2.toOption.isSome ∧
      (copier.compileFile importer withImport).2.toOption.isSome ∧
      (copier.compileFile importer importOverLibrary).1.node? (copier.target importer) ≠
        (copier.compileFile importer withImport).1.node? (copier.target importer) := by decide +kernel
  obtain ⟨hnow, hbefore⟩ := List.forall_mem_cons.1 htogether.discover
  have hlib := List.forall_mem_singleton.1 hbefore
  have hproper := (htogether.1 _ (List.mem_cons_of_mem _ List.mem_cons_self)).2.1
  have hcompiled : copier.Succeeds [⟨"src"⟩] withLibrary compiledLibrary := succeeds_of_one hlib hlibrary
  refine ⟨consistent_of_copy get_default htogether, telling_of_copy htogether, _, _,
    (hcompiled.built hproper).next (laid_of_found hbefore hcovers)
      (succeeds_of_one (discover_of_listed hlisted) hover),
    succeeds_of_one hnow halone, importer, ?_, copier.target importer, List.mem_cons_self, hne⟩
  rw [hnow]
  exact List.mem_cons_self

theorem stale_withScript : copier.Stale copied [⟨"src"⟩, ⟨"build/../src"⟩] withScript [withScript] := by
  have htogether :
      copier.Together [⟨"src"⟩, ⟨"build/../src"⟩] [(withScript, [importer]), (withScript, [importer])] := by
    decide +kernel
  have hfirst : (copier.compileFile importer withScript).2.toOption.isSome := by decide +kernel
  have hcovers : copier.Covers [(withScript, [importer])] withScript compiledScript compiledScript := by decide +kernel
  have hlisted : copier.Listed compiledScript [⟨"src"⟩, ⟨"build/../src"⟩] [importer, roundabout] := by decide +kernel
  -- the record is the same file both ways, and names the output as it was reached last
  obtain ⟨hdirect, hroundabout, hne⟩ : (copier.compileFile importer compiledScript).2.toOption.isSome ∧
      (copier.compileFile roundabout (copier.compileFile importer compiledScript).1).2.toOption.isSome ∧
      (copier.compileFile roundabout (copier.compileFile importer compiledScript).1).1.node?
          (copier.recordPlace importer) ≠
        (copier.compileFile importer withScript).1.node? (copier.recordPlace importer) := by decide +kernel
  obtain ⟨hfound, htree⟩ := List.forall_mem_cons.1 htogether.discover
  have hproper := (htogether.1 _ List.mem_cons_self).2.1
  have hscratch : copier.Succeeds [⟨"src"⟩, ⟨"build/../src"⟩] withScript _ :=
    succeeds_of_one hfound hfirst
  refine ⟨consistent_of_copy get_default htogether, telling_of_copy htogether, _, _,
    (hscratch.built hproper).next (laid_of_found htree hcovers)
      (succeeds_of_two (discover_of_listed hlisted ▸ .swap _ _ _) hdirect hroundabout),
    hscratch, importer, ?_, copier.recordPlace importer, List.mem_cons_of_mem _ List.mem_cons_self, hne⟩
  rw [hfound]
  exact List.mem_cons_self

/-- What the import means is no output, whatever there is. -/
theorem unseen_withImport (t : FileTree) : ∀ p ∈ copier.lookedAt t importer "../build/src/lib",
    ∀ f ∈ [importer, library], place (copier.root.join p) ∉ copier.outputs f := by
  have hplaces : ∀ p ∈ Resolve.spellings (Resolve.candidate ⟨"src"⟩ "../build/src/lib") ++
      (Resolve.spellings (Resolve.candidate ⟨"src"⟩ "../build/src/lib")).map fun dir => dir.join Resolve.packageFile,
      ∀ f ∈ [importer, library], place (copier.root.join p) ∉ copier.outputs f := by decide +kernel
  exact fun p hp => hplaces p (Resolve.mem_of_mem_probed hp)

/-- What was compiled before matters where an import looks at a directory that was made for a file that is gone, and
where a source root leads through a directory that was made. -/
theorem stale_directories :
    copier.Stale copied [⟨"src"⟩] withImport [withLibrary] ∧
      (∀ t, ∀ p ∈ copier.lookedAt t importer "../build/src/lib",
        ∀ f ∈ [importer, library], place (copier.root.join p) ∉ copier.outputs f) ∧
      copier.Stale copied [⟨"src"⟩, ⟨"build/../src"⟩] withScript [withScript] :=
  ⟨stale_withImport, unseen_withImport, stale_withScript⟩

end Bundler.Compiler
