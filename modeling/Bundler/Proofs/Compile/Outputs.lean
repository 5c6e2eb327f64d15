import Bundler.Proofs.Compile.File
import Bundler.Proofs.FileTree.Proper
/-!
# Where the outputs of a run lie

The tasks of one run write compiled files and records, each its own pair, and nothing keeps two of them from
writing one file at the same time. `outputs_meet_iff` says when two tasks have an output in common: when they
compile one source, or when one source is named like the record of the other (`a.js` and `a.js.meta.cbor`).
The first happens only where one source root is the other or lies in it.
-/

namespace Bundler

open FileTree

namespace FileTree

instance (piece : String) : Decidable (IsName piece) := inferInstanceAs (Decidable (_ ∧ _))

instance (l : Location) : Decidable (Spelled l) := inferInstanceAs (Decidable (∀ _ ∈ _, _))

instance (t : FileTree) : Decidable t.Proper :=
  decidable_of_iff ((t.entries.map Prod.fst).Nodup ∧ (∀ e ∈ t.entries, e.1 ≠ [] ∧ Spelled e.1) ∧
      ∀ e ∈ t.entries, t.node? e.1.dropLast = some .directory)
    ⟨fun ⟨once, named, inside⟩ => ⟨once, named, inside⟩, fun h => ⟨h.once, h.named, h.inside⟩⟩

end FileTree

namespace Compiler

variable {c : Compiler} {t : FileTree} {sources : List Path} {f g : SourceFile} {l m : Location}

/-! ## Files that are found -/

/-- Where the source of a file is. -/
def sourcePlace (c : Compiler) (file : SourceFile) : Location := place (c.root.join (source file))

/-- The files that are found below one source root. -/
def found (c : Compiler) (t : FileTree) (root : Path) : List SourceFile :=
  match t.locate (c.root.join root) with
  | .error _ => []
  | .ok l =>
    if t.node? l = some .directory then (t.filesBelow l).map fun names => (root, ⟨"/".intercalate names⟩) else []

theorem discover_eq (c : Compiler) (t : FileTree) (sources : List Path) :
    c.discover t sources = sources.flatMap (c.found t) := rfl

theorem found_of_directory {root : Path} (h : t.at? (c.root.join root) = some .directory) :
    c.found t root = (t.filesBelow (place (c.root.join root))).map fun names => (root, ⟨"/".intercalate names⟩) := by
  unfold at? at h
  unfold found
  cases hl : t.locate (c.root.join root) with
  | error e =>
    rw [hl] at h
    cases h
  | ok l =>
    rw [hl] at h
    rw [← locate_eq hl]
    exact if_pos h

theorem found_of_none {root : Path} (h : t.at? (c.root.join root) ≠ some .directory) : c.found t root = [] := by
  unfold at? at h
  unfold found
  cases hl : t.locate (c.root.join root) with
  | error e => rfl
  | ok l =>
    rw [hl] at h
    exact if_neg h

/-- What the entries below the source roots show, where they are in path order already. -/
def Listed (c : Compiler) (t : FileTree) (sources : List Path) (files : List SourceFile) : Prop :=
  (∀ root ∈ sources, (t.inside (place (c.root.join root))).Pairwise fun a b => (compareLocations a.1 b.1).isLE) ∧
    (sources.flatMap fun root =>
      if t.at? (c.root.join root) = some .directory then
        (t.filesInside (place (c.root.join root))).map fun names => (root, ⟨"/".intercalate names⟩)
      else []) = files

instance (c : Compiler) (t : FileTree) (sources : List Path) (files : List SourceFile) :
    Decidable (c.Listed t sources files) := inferInstanceAs (Decidable (_ ∧ _))

theorem discover_of_listed {files : List SourceFile} (h : c.Listed t sources files) : c.discover t sources = files := by
  obtain ⟨hsorted, rfl⟩ := h
  rw [discover_eq]
  refine List.flatMap_congr fun root hroot => ?_
  split
  · next hdir => rw [found_of_directory hdir, filesBelow_of_sorted (hsorted root hroot)]
  · next hdir => exact found_of_none hdir

/-- The files that are found are those below the source roots that are directories. -/
theorem mem_discover (h : t.Proper) : f ∈ c.discover t sources ↔
    f.1 ∈ sources ∧ t.at? (c.root.join f.1) = some .directory ∧ ∃ names : Location, names ≠ [] ∧
      f.2 = ⟨"/".intercalate names⟩ ∧ ∃ content, t.node? (place (c.root.join f.1) ++ names) = some (.file content) := by
  rw [discover_eq, List.mem_flatMap]
  constructor
  · rintro ⟨root, hroot, hmem⟩
    by_cases hdir : t.at? (c.root.join root) = some .directory
    · rw [found_of_directory hdir] at hmem
      obtain ⟨names, hnames, rfl⟩ := List.mem_map.1 hmem
      obtain ⟨hne, hfile⟩ := h.mem_filesBelow.1 hnames
      exact ⟨hroot, hdir, names, hne, rfl, hfile⟩
    · rw [found_of_none hdir] at hmem
      cases hmem
  · rintro ⟨hroot, hdir, names, hne, hpath, hfile⟩
    refine ⟨f.1, hroot, ?_⟩
    rw [found_of_directory hdir, List.mem_map]
    exact ⟨names, h.mem_filesBelow.2 ⟨hne, hfile⟩, Prod.ext rfl hpath.symm⟩

/-- A file that is found is named by what leads to it from its source root. -/
theorem exists_names (h : t.Proper) (hf : f ∈ c.discover t sources) :
    ∃ names : Location, names ≠ [] ∧ Spelled names ∧ f.2 = ⟨"/".intercalate names⟩ := by
  obtain ⟨-, -, names, hne, hpath, content, hfile⟩ := (mem_discover h).1 hf
  refine ⟨names, hne, fun name hname => ?_, hpath⟩
  exact h.spelled hfile name (List.mem_append_right _ hname)

theorem sourcePlace_eq {names : Location} (hne : names ≠ []) (hnames : Spelled names)
    (hpath : f.2 = ⟨"/".intercalate names⟩) : c.sourcePlace f = place (c.root.join f.1) ++ names := by
  rw [sourcePlace, source, hpath, ← Path.join_assoc, place_join_names _ hne hnames]

/-- The source of a file that is found is there. -/
theorem node?_sourcePlace (h : t.Proper) (hf : f ∈ c.discover t sources) :
    ∃ content, t.node? (c.sourcePlace f) = some (.file content) := by
  obtain ⟨-, -, names, hne, hpath, content, hfile⟩ := (mem_discover h).1 hf
  refine ⟨content, ?_⟩
  rw [sourcePlace_eq hne _ hpath, hfile]
  exact fun name hname => h.spelled hfile name (List.mem_append_right _ hname)

/-! ## Different sources -/

/-- Neither of two source roots lies in the other. -/
def Apart (c : Compiler) (root root' : Path) : Prop :=
  ¬ place (c.root.join root) <+: place (c.root.join root') ∧ ¬ place (c.root.join root') <+: place (c.root.join root)

/-- The places of the files that are found below a root: names behind the place of the root. -/
theorem sourcePlaces_found (h : t.Proper) {root : Path} (hdir : t.at? (c.root.join root) = some .directory) :
    (c.found t root).map c.sourcePlace =
      (t.filesBelow (place (c.root.join root))).map (place (c.root.join root) ++ ·) := by
  rw [found_of_directory hdir, List.map_map]
  apply List.map_congr_left
  intro names hnames
  obtain ⟨hne, content, hfile⟩ := h.mem_filesBelow.1 hnames
  have hspelled : Spelled names := fun name hname => h.spelled hfile name (List.mem_append_right _ hname)
  rw [Function.comp_apply, sourcePlace_eq hne hspelled rfl]

/-- Below roots that lie apart every source is found once. -/
theorem nodup_sourcePlaces (h : t.Proper) (hapart : sources.Pairwise c.Apart) :
    ((c.discover t sources).map c.sourcePlace).Nodup := by
  rw [discover_eq, List.map_flatMap, List.nodup_flatMap]
  constructor
  · intro root _
    by_cases hdir : t.at? (c.root.join root) = some .directory
    · rw [sourcePlaces_found h hdir]
      exact (h.nodup_filesBelow _).map (List.append_right_injective _)
    · simp [found_of_none hdir]
  · have below {root : Path} {l : Location} (hl : l ∈ (c.found t root).map c.sourcePlace) :
        place (c.root.join root) <+: l := by
      by_cases hdir : t.at? (c.root.join root) = some .directory
      · rw [sourcePlaces_found h hdir] at hl
        obtain ⟨names, -, rfl⟩ := List.mem_map.1 hl
        exact List.prefix_append _ _
      · simp [found_of_none hdir] at hl
    refine hapart.imp fun {root root'} hapart l hl hl' => ?_
    -- of two beginnings of one place the shorter one begins the other
    rcases List.prefix_or_prefix_of_prefix (below hl) (below hl') with hpre | hpre
    · exact hapart.1 hpre
    · exact hapart.2 hpre

/-! ## Outputs -/

/-- The places that are written when a file is compiled. -/
def outputs (c : Compiler) (file : SourceFile) : List Location := [c.target file, c.recordPlace file]

/-- Compiling one file and compiling the other write to one place. -/
def Meet (c : Compiler) (f g : SourceFile) : Prop := ∃ l ∈ c.outputs f, l ∈ c.outputs g

/-- Where the record of a file lies, if the file is at a place. -/
def recordAt (l : Location) : Location := l.dropLast ++ [l.getLast?.getD "" ++ Record.suffix]

theorem recordAt_concat (l : Location) (name : String) : recordAt (l ++ [name]) = l ++ [name ++ Record.suffix] := by
  simp [recordAt]

theorem recordAt_append (hm : m ≠ []) : recordAt (l ++ m) = l ++ recordAt m := by
  obtain ⟨init, last, rfl⟩ := (List.eq_nil_or_concat m).resolve_left hm
  rw [List.concat_eq_append, ← List.append_assoc, recordAt_concat, recordAt_concat, List.append_assoc]

theorem recordAt_inj (hl : l ≠ []) (hm : m ≠ []) (h : recordAt l = recordAt m) : l = m := by
  obtain ⟨init, last, rfl⟩ := (List.eq_nil_or_concat l).resolve_left hl
  obtain ⟨init', last', rfl⟩ := (List.eq_nil_or_concat m).resolve_left hm
  rw [List.concat_eq_append, List.concat_eq_append, recordAt_concat, recordAt_concat] at h
  obtain ⟨rfl, hlast⟩ := List.append_inj' h rfl
  rw [List.cons.injEq] at hlast
  have htext := congrArg String.toList hlast.1
  rw [String.toList_append, String.toList_append] at htext
  rw [String.toList_inj.1 (List.append_cancel_right htext)]

theorem target_eq {names : Location} (hne : names ≠ []) (hnames : Spelled names)
    (hpath : f.2 = ⟨"/".intercalate names⟩) : c.target f = place (c.root.join (c.outDir.join f.1)) ++ names := by
  rw [target, destination, hpath, ← Path.join_assoc, place_join_names _ hne hnames]

theorem spelled_record {init : Location} {last : String} (h : Spelled (init ++ [last])) :
    Spelled (init ++ [last ++ Record.suffix]) := by
  intro name hname
  rcases List.mem_append.1 hname with hname | hname
  · exact h name (List.mem_append_left _ hname)
  · rw [List.mem_singleton.1 hname]
    have hlast := (h last (by simp)).2
    refine ⟨isName_of_length ?_, ?_⟩
    · rw [String.toList_append, List.length_append]
      have : 2 < Record.suffix.toList.length := by decide
      omega
    · rw [String.toList_append, List.mem_append, not_or]
      exact ⟨hlast, by decide⟩

/-- The suffix of a record goes into the last name of its path. -/
theorem recordPath_eq {init : Location} {last : String} (hpath : f.2 = ⟨"/".intercalate (init ++ [last])⟩) :
    c.recordPath f = (c.root.join (c.outDir.join f.1)).join ⟨"/".intercalate (init ++ [last ++ Record.suffix])⟩ := by
  have hsuffix : Record.suffix.toList.head? ≠ some '/' := by decide
  rw [recordPath, Record.pathFor, destination, hpath, Path.intercalate_append_last, Path.join_assoc c.root]
  exact congrArg c.root.join
    (Path.eq_of_text (Path.join_append (c.outDir.join f.1) ⟨"/".intercalate (init ++ [last])⟩ hsuffix).symm)

/-- The record lies beside the compiled file. -/
theorem recordPlace_eq {names : Location} (hne : names ≠ []) (hnames : Spelled names)
    (hpath : f.2 = ⟨"/".intercalate names⟩) : c.recordPlace f = recordAt (c.target f) := by
  obtain ⟨init, last, rfl⟩ := (List.eq_nil_or_concat names).resolve_left hne
  rw [List.concat_eq_append] at hne hnames hpath
  rw [recordPlace, recordPath_eq hpath, place_join_names _ (by simp) (spelled_record hnames),
    target_eq hne hnames hpath, recordAt_append (by simp), recordAt_concat]

/-- Two files have an output in common when their compiled files are one, or one is the record of the other. -/
theorem meet_iff (hf : c.recordPlace f = recordAt (c.target f)) (hg : c.recordPlace g = recordAt (c.target g))
    (hfne : c.target f ≠ []) (hgne : c.target g ≠ []) :
    c.Meet f g ↔ c.target f = c.target g ∨ c.target g = recordAt (c.target f) ∨ c.target f = recordAt (c.target g) := by
  unfold Meet outputs
  rw [hf, hg]
  constructor
  · rintro ⟨l, hl, hl'⟩
    simp only [List.mem_cons, List.not_mem_nil, or_false] at hl hl'
    rcases hl with heq | heq <;> rcases hl' with heq' | heq'
    · exact .inl (heq.symm.trans heq')
    · exact .inr (.inr (heq.symm.trans heq'))
    · exact .inr (.inl (heq'.symm.trans heq))
    · exact .inl (recordAt_inj hfne hgne (heq.symm.trans heq'))
  · rintro (heq | heq | heq)
    · exact ⟨_, List.mem_cons_self, by simp [heq]⟩
    · exact ⟨_, List.mem_cons_of_mem _ List.mem_cons_self, by simp [heq]⟩
    · exact ⟨_, List.mem_cons_self, by simp [heq]⟩

/-- Two tasks of a run have an output in common exactly when their compiled files are one, or one of these is
the record of the other. Where the source roots lead down from the root of the project, that is when they
compile one source, or when one source is named like the record of the other. And where no root is another or
lies in it, no two tasks compile one source. -/
theorem outputs_meet_iff (hp : t.Proper) {i j : Nat} (hij : i ≠ j) (hf : (c.discover t sources)[i]? = some f)
    (hg : (c.discover t sources)[j]? = some g) :
    (c.Meet f g ↔ c.target f = c.target g ∨ c.target g = recordAt (c.target f) ∨ c.target f = recordAt (c.target g)) ∧
      ((∀ root ∈ sources, root.Inner) → (c.Meet f g ↔ c.sourcePlace f = c.sourcePlace g ∨
        c.sourcePlace g = recordAt (c.sourcePlace f) ∨ c.sourcePlace f = recordAt (c.sourcePlace g))) ∧
      (sources.Pairwise c.Apart → c.sourcePlace f ≠ c.sourcePlace g) := by
  have hfmem := List.mem_of_getElem? hf
  have hgmem := List.mem_of_getElem? hg
  obtain ⟨names, hne, hnames, hpath⟩ := exists_names hp hfmem
  obtain ⟨names', hne', hnames', hpath'⟩ := exists_names hp hgmem
  have hmeet : c.Meet f g ↔
      c.target f = c.target g ∨ c.target g = recordAt (c.target f) ∨ c.target f = recordAt (c.target g) := by
    apply meet_iff (recordPlace_eq hne hnames hpath) (recordPlace_eq hne' hnames' hpath')
    · simp [target_eq hne hnames hpath, hne]
    · simp [target_eq hne' hnames' hpath', hne']
  refine ⟨hmeet, fun inner => ?_, fun apart heq => ?_⟩
  · -- both places go on with the same names, below the root and below the output directory
    have tail (out : Path) {file : SourceFile} (names : Location) (hfile : file ∈ c.discover t sources) :
        place (out.join file.1) ++ names = place out ++ (place file.1 ++ names) := by
      rw [place_join_of_inner _ (inner _ ((mem_discover hp).1 hfile).1), List.append_assoc]
    have hnonempty : place f.1 ++ names ≠ [] := List.append_ne_nil_of_right_ne_nil _ hne
    have hnonempty' : place g.1 ++ names' ≠ [] := List.append_ne_nil_of_right_ne_nil _ hne'
    rw [hmeet, target_eq hne hnames hpath, target_eq hne' hnames' hpath', sourcePlace_eq hne hnames hpath,
      sourcePlace_eq hne' hnames' hpath', ← Path.join_assoc, ← Path.join_assoc]
    rw [tail _ _ hfmem, tail _ _ hgmem, tail _ _ hfmem, tail _ _ hgmem, recordAt_append hnonempty,
      recordAt_append hnonempty', recordAt_append hnonempty, recordAt_append hnonempty']
    simp only [List.append_cancel_left_eq]
  · have hnodup := nodup_sourcePlaces hp apart
    apply hij
    have hi : i < ((c.discover t sources).map c.sourcePlace).length := by
      rw [List.length_map]
      exact (List.getElem?_eq_some_iff.1 hf).1
    apply (List.getElem?_inj hi hnodup).1
    rw [List.getElem?_map, List.getElem?_map, hf, hg, Option.map_some, Option.map_some, heq]

/-- Copies what is below `src`. -/
def copier : Compiler := ⟨⟨"/w"⟩, ⟨"build"⟩, Transpilers.default, 1, fun _ _ => .error .notFound⟩

/-- A source, and beside it a file that is named like the record of the source. -/
def besideSource : FileTree :=
  ⟨[(["w"], .directory), (["w", "src"], .directory), (["w", "src", "a.js"], .file []),
    (["w", "src", "a.js.meta.cbor"], .file [0x78])], [], []⟩

theorem discover_besideSource :
    copier.discover besideSource [⟨"src"⟩] = [(⟨"src"⟩, ⟨"a.js"⟩), (⟨"src"⟩, ⟨"a.js.meta.cbor"⟩)] :=
  discover_of_listed (by decide)

/-- The record of the one file is the compiled counterpart of the other. -/
theorem outputs_meet_beside :
    copier.discover besideSource [⟨"src"⟩] = [(⟨"src"⟩, ⟨"a.js"⟩), (⟨"src"⟩, ⟨"a.js.meta.cbor"⟩)] ∧
      copier.Meet (⟨"src"⟩, ⟨"a.js"⟩) (⟨"src"⟩, ⟨"a.js.meta.cbor"⟩) := by
  have hfound := discover_besideSource
  have hproper : besideSource.Proper := by decide
  have hinner : ∀ root ∈ [Path.mk "src"], root.Inner := by decide
  refine ⟨hfound, ?_⟩
  apply ((outputs_meet_iff hproper (i := 0) (j := 1) (by decide) (by rw [hfound]; rfl)
    (by rw [hfound]; rfl)).2.1 hinner).2
  right
  left
  decide

end Compiler
end Bundler
