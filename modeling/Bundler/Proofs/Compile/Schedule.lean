import Bundler.Proofs.Compile.Copying
import Bundler.Proofs.TaskGraph.Replay
/-!
# Compiling a tree, whatever the schedule

When the outputs of the files lie apart from each other and from all that is read (`Separate`), and neither do
the directories that are made for them stand in the way of what is looked up (`Clear`), then all the schedules
of a run come to the same: every file ends as it does when it is compiled alone (`compile_any_order`).
-/

namespace Bundler.Compiler

open FileTree
open Run (Reaches Returned Inevitably startedIn replay)

variable {c : Compiler} {t u v : FileTree} {sources : List Path} {files done : List SourceFile} {f g : SourceFile}
  {l : Location} {p : Progress} {s : Run Progress Empty}

/-! ## Runs over independent files -/

theorem ids_graph (c : Compiler) (files : List SourceFile) : (c.graph files).ids = List.range files.length := by
  show ((List.range files.length).map fun id => (id, ([] : List TaskId))).map Prod.fst = _
  rw [List.map_map]
  exact List.map_id _

/-- The tasks of files do not wait for each other. -/
theorem acyclic_graph (c : Compiler) (files : List SourceFile) : (c.graph files).Acyclic := by
  intro id hid
  obtain ⟨d, ⟨-, deps, hdeps, hd⟩, -⟩ := Relation.TransGen.head'_iff.1 hid
  obtain ⟨id', -, heq⟩ := List.mem_map.1 hdeps
  cases heq
  cases hd

/-- A run that returns `.ok` has started the task of every file once, and its tree is what comes of them one
after the other. -/
theorem ran_all {work : Work Progress Empty} {cancelled : Bool}
    (h : Reaches (c.graph files) work (startRun cancelled t) s) (phase : s.phase = .returned (.ok ())) :
    (startedIn s.history).Perm (List.range files.length) ∧
      s.world = replay work (startedIn s.history) ⟨t, [], ⟨0, 0⟩⟩ := by
  have sound := h.sound (Run.sound_start _ _)
  obtain ⟨⟨hids, -⟩, -⟩ := sound.ok_spec phase
  constructor
  · rw [← ids_graph, ← hids]
    exact s.startedIds_perm.symm
  · exact h.world_eq (Run.token_of_ok h phase)

/-! ## Files apart from each other -/

/-- The outputs of the files are apart from each other, outside the source roots, and never looked at to see what
an import names; the transpilers write nothing else than the compiled files, as functions of the source and of
what the compiled file was. -/
structure Separate (c : Compiler) (t : FileTree) (sources : List Path) : Prop where
  disjoint : (c.discover t sources).Pairwise fun f g => ¬ c.Meet f g
  apart : ∀ f ∈ c.discover t sources, ∀ g ∈ c.discover t sources,
    ∀ l ∈ c.outputs f, ∀ m ∈ c.outputs g, l <+: m → l = m
  outside : ∀ f ∈ c.discover t sources, ∀ root ∈ sources, ∀ l ∈ c.outputs f, ¬ place (c.root.join root) <+: l
  unseen : ∀ f ∈ c.discover t sources, ∀ p ∈ c.probes f t, ∀ g ∈ c.discover t sources,
    place (c.root.join p) ∉ c.outputs g
  acts : ∀ f ∈ c.discover t sources, ∃ act, c.Acts f act

/-- The outputs have no second names, the paths to them climb out of no directory that is missing, and no such
directory is looked at, or climbed out of, to see what an import names. -/
structure Clear (c : Compiler) (t : FileTree) (sources : List Path) : Prop where
  orderly : ∀ f ∈ c.discover t sources, c.Orderly f t
  steady : ∀ f ∈ c.discover t sources, t.Steady (c.root.join (c.destination f))
  past : ∀ f ∈ c.discover t sources, ∀ p ∈ c.probes f t,
    Past (fun l => (∃ g ∈ c.discover t sources, l ∈ c.way g) ∧ t.node? l = none) (c.root.join p)

theorem meet_symm (h : c.Meet f g) : c.Meet g f := by
  obtain ⟨l, hf, hg⟩ := h
  exact ⟨l, hg, hf⟩

section Apart

variable (hp : t.Proper) (hsep : c.Separate t sources) (hclear : c.Clear t sources)
include hp hsep hclear

/-- An output on the way to an output can only be a directory. -/
theorem directory_of_way (hf : f ∈ c.discover t sources) (hg : g ∈ c.discover t sources) (hl : l ∈ c.outputs g)
    (hw : l ∈ c.way f) : t.node? l = some .directory := by
  obtain ⟨cs, name, hfiled⟩ := exists_filed hp hf
  rw [hfiled.way_eq] at hw
  rcases (hclear.steady f hf).cases hfiled.compiled hw with hdir | hpre
  · exact hdir
  · have htarget := hfiled.target_eq
    have heq := hsep.apart g hg f hf l hl (c.target f) List.mem_cons_self
      (htarget ▸ hpre.trans (List.prefix_append _ _))
    have hlen := hpre.length_le
    rw [heq, htarget, List.length_append, List.length_singleton] at hlen
    omega

/-- What was done for other files is elsewhere. -/
theorem elsewhere_of_touched (hf : f ∈ c.discover t sources) (hdone : ∀ g ∈ done, g ∈ c.discover t sources)
    (hmeet : ∀ g ∈ done, ¬ c.Meet f g)
    (h : Touched (fun l => ∃ g ∈ done, l ∈ c.outputs g) (fun l => ∃ g ∈ c.discover t sources, l ∈ c.way g) t u) :
    c.Elsewhere f (fun l => ∃ g ∈ done, l ∈ c.outputs g) (fun l => ∃ g ∈ c.discover t sources, l ∈ c.way g) t u where
  touched := h
  source := by
    rintro ⟨g, hg, hl⟩
    obtain ⟨hroot, -, names, hne, hpath, content, hfile⟩ := (mem_discover hp).1 hf
    have hspelled : Spelled names := fun name hname => hp.spelled hfile name (List.mem_append_right _ hname)
    apply hsep.outside g (hdone g hg) f.1 hroot _ hl
    rw [sourcePlace_eq hne hspelled hpath]
    exact List.prefix_append _ _
  output l hl := by
    refine ⟨fun ⟨g, hg, hl'⟩ => hmeet g hg ⟨l, hl, hl'⟩, fun ⟨g, hg, hw⟩ => ?_⟩
    rw [directory_of_way hp hsep hclear hg hf hl hw]
    nofun
  way k hk := fun ⟨g, hg, hl⟩ => directory_of_way hp hsep hclear hf (hdone g hg) hl hk

/-- After other files were compiled, a file is compiled as it is alone. -/
theorem compileFile_after (hf : f ∈ c.discover t sources) (hdone : ∀ g ∈ done, g ∈ c.discover t sources)
    (hmeet : ∀ g ∈ done, ¬ c.Meet f g)
    (h : Touched (fun l => ∃ g ∈ done, l ∈ c.outputs g) (fun l => ∃ g ∈ c.discover t sources, l ∈ c.way g) t u) :
    c.SameEnd f (c.compileFile f t) (c.compileFile f u) := by
  obtain ⟨act, hact⟩ := hsep.acts f hf
  obtain ⟨cs, name, hfiled⟩ := exists_filed hp hf
  have helse := elsewhere_of_touched hp hsep hclear hf hdone hmeet h
  apply compileFile_elsewhere hact hfiled hp (hclear.orderly f hf) (hclear.steady f hf) helse _ hf
  · rintro p hprobe (⟨g, hg, hl⟩ | hl)
    · exact hsep.unseen f hf p hprobe g (hdone g hg) hl
    · exact hsep.unseen f hf p hprobe f hf hl
  · intro p hprobe k hk hway
    apply hclear.past f hf p hprobe k hk
    exact ⟨hway.1.elim id fun hw => ⟨f, hf, hw⟩, hway.2⟩
  · rintro l ⟨g, hg, hl⟩
    exact (hclear.orderly g (hdone g hg)).alone hl

end Apart

/-! ## What comes of a run -/

/-- The report on files that are compiled alone. -/
def reportOf (c : Compiler) (t : FileTree) (files : List SourceFile) : CompileReport where
  compiled := files.countP fun f => (c.compileFile f t).2 matches .ok (.fresh _)
  cached := files.countP fun f => (c.compileFile f t).2 matches .ok .cached

/-- The errors of files that are compiled alone. -/
def errorsOf (c : Compiler) (t : FileTree) (files : List SourceFile) : List CompileError :=
  files.filterMap fun f =>
    match (c.compileFile f t).2 with
    | .error (.error e) => some e
    | _ => none

/-- Some of the files were compiled, each of them as it is alone, and nothing else was done. -/
structure AsAlone (c : Compiler) (t : FileTree) (files done : List SourceFile) (p : Progress) : Prop where
  touched : Touched (fun l => ∃ g ∈ done, l ∈ c.outputs g) (fun l => ∃ g ∈ files, l ∈ c.way g) t p.tree
  output : ∀ f ∈ done, ∀ l ∈ c.outputs f, p.tree.node? l = (c.compileFile f t).1.node? l
  report : p.report = c.reportOf t done
  errors : p.errors.Perm (c.errorsOf t done)

/-- What a run over all files answers that has come so far, if it is not aborted. -/
def Progress.answer (p : Progress) : Except CompileError CompileReport :=
  match p.errors with
  | e :: _ => .error e
  | [] => .ok p.report

theorem conclude_of_ok (phase : s.phase = .returned (.ok ())) : conclude s = s.world.answer := by
  unfold conclude Run.result
  rw [phase]
  rfl

/-- A run that answers with a report was not aborted, and no file failed. -/
theorem of_conclude {report : CompileReport} (hreturned : s.Returned) (h : conclude s = .ok report) :
    s.phase = .returned (.ok ()) ∧ s.world.errors = [] ∧ s.world.report = report := by
  obtain ⟨answer, phase⟩ := hreturned
  obtain rfl : answer = .ok () := by
    unfold conclude Run.result at h
    rw [phase] at h
    rcases answer with e | ⟨⟩
    · cases h
    · rfl
  rw [conclude_of_ok phase, Progress.answer] at h
  split at h
  · cases h
  · next heq =>
    cases h
    exact ⟨phase, heq, rfl⟩

/-- All files were compiled, each of them as it is alone, and the answer tells whether some of them failed. -/
structure EndedAlone (c : Compiler) (t : FileTree) (files : List SourceFile) (p : Progress)
    (answer : Except CompileError CompileReport) : Prop where
  output : ∀ f ∈ files, ∀ l ∈ c.outputs f, p.tree.node? l = (c.compileFile f t).1.node? l
  report : p.report = c.reportOf t files
  errors : p.errors.Perm (c.errorsOf t files)
  failed : (∃ e, answer = .error e) ↔ ∃ f ∈ files, ∃ e, (c.compileFile f t).2 = .error e
  error : ∀ e, answer = .error e → ∃ f ∈ files, (c.compileFile f t).2 = .error (.error e)
  well : ∀ report, answer = .ok report → report = c.reportOf t files

theorem AsAlone.none (c : Compiler) (t : FileTree) (files : List SourceFile) :
    c.AsAlone t files [] ⟨t, [], ⟨0, 0⟩⟩ := ⟨.refl .., nofun, rfl, .refl _⟩

/-- A transpiler that does not panic makes no panic. -/
theorem compileFile_ne_panic {act : Action} {cs : List Path.Component} {name : String} (hact : c.Acts f act)
    (hf : c.Filed f cs name) (ho : c.Orderly f t) (hs : t.Steady (c.root.join (c.destination f))) (panic : Panic) :
    (c.compileFile f t).2 ≠ .error (.panic panic) := by
  rcases c.compileFile_cases f t with ⟨e, heq⟩ | ⟨content, hread, ⟨-, heq⟩ | heq⟩ <;> rw [heq]
  · nofun
  · nofun
  intro hpanic
  rcases hmade : c.recompile f (Digest.hash content).toHex t with ⟨t', r⟩
  rw [hmade] at hpanic
  obtain rfl : r = .error (.panic panic) := hpanic
  obtain ⟨failure, t₁, hparent, htranspiled, hfailure⟩ : ∃ failure t₁,
      t.makeParent (c.root.join (c.destination f)) = (t₁, .ok ()) ∧ c.transpile f t₁ = (t', .error failure) ∧
        failure = .panic panic := by
    generalize hr : Except.error (Failure.panic panic) = r at hmade
    cases recompiled hmade with
    | notTranspiled failure t₁ _ hparent htranspiled =>
      refine ⟨failure, t₁, hparent, htranspiled, ?_⟩
      cases failure with
      | error e => cases hr
      | panic p => cases hr; rfl
    | _ => cases hr
  obtain ⟨hgrows, ho₁⟩ := ho.parent hparent
  have hthere := hf.directory_of_way (isDirectory_of_makeParent ho.links hf.compiled hs hparent)
  obtain ⟨-, hanswer⟩ := hact.acts _ _ _ _ ho₁ hthere (hgrows.read hread) htranspiled
  rw [hfailure] at hanswer
  cases hact : (act content (t₁.node? (c.target f))).2 <;> rw [hact] at hanswer <;> cases hanswer

theorem not_meet_of_ne (h : files.Pairwise fun f g => ¬ c.Meet f g) {i j : Nat} (hij : i ≠ j)
    (hf : files[i]? = some f) (hg : files[j]? = some g) : ¬ c.Meet f g := by
  obtain ⟨hi, rfl⟩ := List.getElem?_eq_some_iff.1 hf
  obtain ⟨hj, rfl⟩ := List.getElem?_eq_some_iff.1 hg
  rcases Nat.lt_or_gt_of_ne hij with hlt | hgt
  · exact List.pairwise_iff_getElem.1 h i j hi hj hlt
  · exact fun hmeet => List.pairwise_iff_getElem.1 h j i hj hi hgt (meet_symm hmeet)

theorem filterMap_range (files : List SourceFile) : (List.range files.length).filterMap (files[·]?) = files := by
  have hmap : (List.range files.length).map (files[·]?) = files.map some := by
    apply List.ext_getElem?
    intro i
    by_cases hi : i < files.length
    · simp [hi]
    · simp [Nat.le_of_not_lt hi]
  calc (List.range files.length).filterMap (files[·]?)
      = ((List.range files.length).map (files[·]?)).filterMap id := by rw [List.filterMap_map]; rfl
    _ = files := by rw [hmap, List.filterMap_map]; exact List.filterMap_some

theorem mem_errorsOf {e : CompileError} :
    e ∈ c.errorsOf t files ↔ ∃ f ∈ files, (c.compileFile f t).2 = .error (.error e) := by
  unfold errorsOf
  rw [List.mem_filterMap]
  refine exists_congr fun f => and_congr_right fun _ => ?_
  rcases (c.compileFile f t).2 with (e | panic) | compiled <;> simp

/-- A file that ends as it does alone counts as it does alone, if it does not panic. -/
theorem task_counts {id : TaskId} (hf : files[id]? = some f)
    (hanswer : (c.compileFile f t).2 = (c.compileFile f p.tree).2)
    (hpanic : ∀ panic, (c.compileFile f t).2 ≠ .error (.panic panic)) (hreport : p.report = c.reportOf t done)
    (herrors : p.errors.Perm (c.errorsOf t done)) :
    (c.task files false id p).2 = .ok () ∧ (c.task files false id p).1.tree = (c.compileFile f p.tree).1 ∧
      (c.task files false id p).1.report = c.reportOf t (f :: done) ∧
      (c.task files false id p).1.errors.Perm (c.errorsOf t (f :: done)) := by
  rcases hmade : c.compileFile f p.tree with ⟨u, r⟩
  rw [hmade] at hanswer
  unfold task
  rw [if_neg Bool.false_ne_true, hf]
  dsimp only
  rw [hmade]
  rcases r with (e | panic) | (_ | imports)
  · have hnext : c.errorsOf t (f :: done) = e :: c.errorsOf t done := by simp [errorsOf, hanswer]
    refine ⟨rfl, rfl, ?_, ?_⟩
    · simp [hreport, reportOf, hanswer]
    · rw [hnext]
      exact List.perm_append_comm.trans (herrors.cons e)
  · exact absurd hanswer (hpanic panic)
  all_goals
    have hnext : c.errorsOf t (f :: done) = c.errorsOf t done := by simp [errorsOf, hanswer]
    refine ⟨rfl, rfl, ?_, ?_⟩
    · simp [hreport, reportOf, hanswer]
    · rw [hnext]
      exact herrors

section Steps

variable (hp : t.Proper) (hsep : c.Separate t sources) (hclear : c.Clear t sources)
include hp hsep hclear

/-- What compiling one more file does to the tree. -/
theorem touched_next (hf : f ∈ c.discover t sources) (hdone : ∀ g ∈ done, g ∈ c.discover t sources)
    (h : Touched (fun l => ∃ g ∈ done, l ∈ c.outputs g) (fun l => ∃ g ∈ c.discover t sources, l ∈ c.way g) t u)
    (hmade : Touched (· ∈ c.outputs f) (· ∈ c.way f) u v) :
    Touched (fun l => ∃ g ∈ f :: done, l ∈ c.outputs g) (fun l => ∃ g ∈ c.discover t sources, l ∈ c.way g) t v := by
  have hmore : ∀ g ∈ f :: done, g ∈ c.discover t sources := List.forall_mem_cons.2 ⟨hf, hdone⟩
  refine (h.mono_of_apart (fun l ⟨g, hg, hl⟩ => ⟨g, List.mem_cons_of_mem _ hg, hl⟩) (fun l hl => hl) ?_).trans
    (hmade.mono_of_apart (fun l hl => ⟨f, List.mem_cons_self, hl⟩) (fun l hl => ⟨f, hf, hl⟩) ?_)
  · rintro l - ⟨g', hg', hl⟩ ⟨g, hg, hw⟩
    rw [directory_of_way hp hsep hclear hg (hmore g' hg') hl hw]
    nofun
  · rintro l - ⟨g', hg', hl⟩ hw
    rw [h.directory l (directory_of_way hp hsep hclear hf (hmore g' hg') hl hw)]
    nofun

/-- One more file is compiled as it is alone. -/
theorem AsAlone.step (h : c.AsAlone t (c.discover t sources) done p) {id : TaskId}
    (hf : (c.discover t sources)[id]? = some f) (hdone : ∀ g ∈ done, g ∈ c.discover t sources)
    (hmeet : ∀ g ∈ done, ¬ c.Meet f g) :
    (c.task (c.discover t sources) false id p).2 = .ok () ∧
      c.AsAlone t (c.discover t sources) (f :: done) (c.task (c.discover t sources) false id p).1 := by
  have hmem := List.mem_of_getElem? hf
  obtain ⟨act, hact⟩ := hsep.acts f hmem
  obtain ⟨cs, name, hfiled⟩ := exists_filed hp hmem
  have hsteady := hclear.steady f hmem
  have halone (l : Location) (hl : ∃ g ∈ done, l ∈ c.outputs g) : t.Alone l := by
    obtain ⟨g, hg, hl⟩ := hl
    exact (hclear.orderly g (hdone g hg)).alone hl
  have htouched := compileFile_touched hact.tidy hfiled ((hclear.orderly f hmem).touched h.touched halone)
    (hsteady.of_directories h.touched.directory) (Prod.eta _).symm
  obtain ⟨hanswer, hsame⟩ := compileFile_after hp hsep hclear hmem hdone hmeet h.touched
  obtain ⟨hended, htree, hreport, herrors⟩ := task_counts hf hanswer.symm
    (compileFile_ne_panic hact hfiled (hclear.orderly f hmem) hsteady) h.report h.errors
  refine ⟨hended, ?_, ?_, hreport, herrors⟩ <;> rw [htree]
  · exact touched_next hp hsep hclear hmem hdone h.touched htouched
  · intro g hg l hl
    rcases List.mem_cons.1 hg with rfl | hg
    · exact hsame l hl
    · rw [← h.output g hg l hl]
      apply htouched.same fun hl' => hmeet g hg ⟨l, hl', hl⟩
      -- an output on the way to another one is a directory already
      intro hw
      rw [h.touched.directory l (directory_of_way hp hsep hclear hmem (hdone g hg) hl hw)]
      nofun

/-- The files of some tasks are compiled one after the other, each as it is alone. -/
theorem asAlone_replay {ids : List TaskId} (hnodup : ids.Nodup)
    (hids : ∀ id ∈ ids, id < (c.discover t sources).length) :
    c.AsAlone t (c.discover t sources) (ids.filterMap ((c.discover t sources)[·]?))
        (replay (c.task (c.discover t sources)) ids ⟨t, [], ⟨0, 0⟩⟩) ∧
      ∀ id before, id :: before <:+ ids →
        (c.task (c.discover t sources) false id
          (replay (c.task (c.discover t sources)) before ⟨t, [], ⟨0, 0⟩⟩)).2 = .ok () := by
  induction ids with
  | nil =>
    refine ⟨.none .., fun id before hsuffix => ?_⟩
    cases List.suffix_nil.1 hsuffix
  | cons id ids ih =>
    rw [List.nodup_cons] at hnodup
    rw [List.forall_mem_cons] at hids
    obtain ⟨hbefore, hwell⟩ := ih hnodup.2 hids.2
    obtain ⟨f, hf⟩ : ∃ f, (c.discover t sources)[id]? = some f := ⟨_, List.getElem?_eq_getElem hids.1⟩
    have hdone : ∀ g ∈ ids.filterMap ((c.discover t sources)[·]?), ∃ j ∈ ids, (c.discover t sources)[j]? = some g :=
      fun g hg => List.mem_filterMap.1 hg
    obtain ⟨hend, hafter⟩ := hbefore.step hp hsep hclear hf
      (fun g hg => by
        obtain ⟨j, -, hj⟩ := hdone g hg
        exact List.mem_of_getElem? hj)
      (fun g hg => by
        obtain ⟨j, hj, hg⟩ := hdone g hg
        apply not_meet_of_ne hsep.disjoint _ hf hg
        rintro rfl
        exact hnodup.1 hj)
    rw [List.filterMap_cons_some hf]
    refine ⟨hafter, fun id' before hsuffix => ?_⟩
    rcases List.suffix_cons_iff.1 hsuffix with heq | hsuffix
    · cases heq
      exact hend
    · exact hwell id' before hsuffix

/-- In whatever order the tasks of all files are done, every file ends as it does alone. -/
theorem endedAlone_of_perm {ids : List TaskId} (hperm : ids.Perm (List.range (c.discover t sources).length)) :
    c.EndedAlone t (c.discover t sources) (replay (c.task (c.discover t sources)) ids ⟨t, [], ⟨0, 0⟩⟩)
      (replay (c.task (c.discover t sources)) ids ⟨t, [], ⟨0, 0⟩⟩).answer := by
  obtain ⟨hall, -⟩ := asAlone_replay hp hsep hclear (hperm.nodup_iff.2 List.nodup_range)
    fun id hid => List.mem_range.1 (hperm.mem_iff.1 hid)
  have hfiles : (ids.filterMap ((c.discover t sources)[·]?)).Perm (c.discover t sources) := by
    have := hperm.filterMap ((c.discover t sources)[·]?)
    rwa [filterMap_range] at this
  generalize replay (c.task (c.discover t sources)) ids ⟨t, [], ⟨0, 0⟩⟩ = p at hall ⊢
  have herrors : p.errors.Perm (c.errorsOf t (c.discover t sources)) := hall.errors.trans (hfiles.filterMap _)
  have hreport : p.report = c.reportOf t (c.discover t sources) := by
    rw [hall.report]
    simp only [reportOf, hfiles.countP_eq]
  have hmem {e : CompileError} :
      e ∈ p.errors ↔ ∃ f ∈ c.discover t sources, (c.compileFile f t).2 = .error (.error e) := by
    rw [herrors.mem_iff]
    exact mem_errorsOf
  have hfail : (∃ f ∈ c.discover t sources, ∃ e, (c.compileFile f t).2 = .error e) → p.errors ≠ [] := by
    rintro ⟨f, hf, e | panic, he⟩
    · exact List.ne_nil_of_mem (hmem.2 ⟨f, hf, he⟩)
    · obtain ⟨act, hact⟩ := hsep.acts f hf
      obtain ⟨cs, name, hfiled⟩ := exists_filed hp hf
      exact absurd he (compileFile_ne_panic hact hfiled (hclear.orderly f hf) (hclear.steady f hf) panic)
  have houtput : ∀ f ∈ c.discover t sources, ∀ l ∈ c.outputs f, p.tree.node? l = (c.compileFile f t).1.node? l :=
    fun f hf => hall.output f (hfiles.mem_iff.2 hf)
  unfold Progress.answer
  rcases hlist : p.errors with _ | ⟨e, rest⟩
  · refine ⟨houtput, hreport, herrors, ⟨nofun, fun hsome => absurd hlist (hfail hsome)⟩, nofun, fun report heq => ?_⟩
    cases heq
    exact hreport
  · have hfirst := hmem.1 (hlist ▸ List.mem_cons_self)
    refine ⟨houtput, hreport, herrors, ⟨fun _ => ?_, fun _ => ⟨e, rfl⟩⟩, fun e' heq => ?_, nofun⟩
    · obtain ⟨f, hf, he⟩ := hfirst
      exact ⟨f, hf, _, he⟩
    · cases heq
      exact hfirst

/-- Unless the caller cancels, a run does not break off: no task fails. -/
theorem returned_ok (h : Reaches (c.graph (c.discover t sources)) (c.task (c.discover t sources))
      (startRun false t) s) (hcaller : s.caller = false) (hreturned : s.Returned) : s.phase = .returned (.ok ()) := by
  obtain ⟨answer, phase⟩ := hreturned
  have sound := h.sound (Run.sound_start _ _)
  have undisturbed := h.undisturbed hcaller fun id before hnodup hmem =>
    (asAlone_replay hp hsep hclear hnodup fun x hx => by simpa [ids_graph] using hmem x hx).2 id before
      List.suffix_rfl
  rcases sound.answer_cases phase hcaller undisturbed.finished with rfl | ⟨pending, rfl⟩
  · exact phase
  · exact absurd (acyclic_graph c _) (sound.unsolvable_spec phase).2.2.2.2

/-- All schedules come to the same. In whatever order the tasks of all files are done, every file ends as it does
when it is compiled alone in the tree as it was at first, and so do as many files well, up to date and with errors;
the answer is an error exactly when some file fails, and then it is the error of such a file. And unless the caller
cancels, a run of the task graph will return wherever it has come to, and then this is what it has done. -/
theorem compile_any_order :
    (∀ ids : List TaskId, ids.Perm (List.range (c.discover t sources).length) →
      c.EndedAlone t (c.discover t sources) (replay (c.task (c.discover t sources)) ids ⟨t, [], ⟨0, 0⟩⟩)
        (replay (c.task (c.discover t sources)) ids ⟨t, [], ⟨0, 0⟩⟩).answer) ∧
    ∀ s, Reaches (c.graph (c.discover t sources)) (c.task (c.discover t sources)) (startRun false t) s →
      s.caller = false →
        Inevitably (c.graph (c.discover t sources)) (c.task (c.discover t sources)) Returned s ∧
          (s.Returned → c.EndedAlone t (c.discover t sources) s.world (conclude s)) := by
  refine ⟨fun ids hperm => endedAlone_of_perm hp hsep hclear hperm, fun s h hcaller => ⟨?_, fun hreturned => ?_⟩⟩
  · exact (h.sound (Run.sound_start _ _)).inevitably_returns _
  · have phase := returned_ok hp hsep hclear h hcaller hreturned
    obtain ⟨hperm, hworld⟩ := ran_all h phase
    rw [conclude_of_ok phase, hworld]
    exact endedAlone_of_perm hp hsep hclear hperm

end Steps

/-- A tree is compiled by one of the runs that can happen. -/
theorem exists_run (c : Compiler) (sources : List Path) (t : FileTree) :
    ∃ s, Reaches (c.graph (c.discover t sources)) (c.task (c.discover t sources)) (startRun false t) s ∧
      s.caller = false ∧ s.Returned ∧ c.compileTree sources false t = (s.world.tree, conclude s) :=
  ⟨_, Run.reaches_solve _ _ _ _ _, Run.solve_caller _ _ _, Run.solve_returns _ _ _ _ _, rfl⟩

/-! ## Trees of files that are copied -/

instance (c : Compiler) (f g : SourceFile) : Decidable (c.Meet f g) :=
  inferInstanceAs (Decidable (∃ l ∈ c.outputs f, l ∈ c.outputs g))

/-- The files of a tree, with outputs that are apart from each other, outside the source roots and never looked at. -/
def Placed (c : Compiler) (t : FileTree) (sources : List Path) (files : List SourceFile) : Prop :=
  c.Listed t sources files ∧ files.Pairwise (fun f g => ¬ c.Meet f g) ∧
    (∀ f ∈ files, ∀ g ∈ files, ∀ l ∈ c.outputs f, ∀ m ∈ c.outputs g, l <+: m → l = m) ∧
    (∀ f ∈ files, ∀ root ∈ sources, ∀ l ∈ c.outputs f, ¬ place (c.root.join root) <+: l) ∧
    ∀ f ∈ files, ∀ p ∈ c.probes f t, ∀ g ∈ files, place (c.root.join p) ∉ c.outputs g

instance (c : Compiler) (t : FileTree) (sources : List Path) (files : List SourceFile) :
    Decidable (c.Placed t sources files) := inferInstanceAs (Decidable (_ ∧ _))

/-- Files are separate that are copied to places apart from each other. -/
theorem separate_of_copy (hp : t.Proper) (hget : ∀ path, c.transpilers.get path = .copy)
    (hplaced : c.Placed t sources files) : c.Separate t sources := by
  obtain ⟨hlisted, hplaces⟩ := hplaced
  have hfound := discover_of_listed hlisted
  subst hfound
  obtain ⟨hdisjoint, hapart, houtside, hunseen⟩ := hplaces
  refine ⟨hdisjoint, hapart, houtside, hunseen, fun f hf => ?_⟩
  obtain ⟨cs, name, hfiled⟩ := exists_filed hp hf
  refine exists_acts_of_copy (hget _) (fun heq => ?_) hfiled
  -- the source lies below its root, the compiled file does not
  obtain ⟨hroot, -, names, hne, hpath, content, hfile⟩ := (mem_discover hp).1 hf
  have hspelled : Spelled names := fun name hname => hp.spelled hfile name (List.mem_append_right _ hname)
  apply houtside f hf f.1 hroot (c.target f) List.mem_cons_self
  rw [← heq, sourcePlace_eq hne hspelled hpath]
  exact List.prefix_append _ _

theorem get_default (path : Path) : Transpilers.default.get path = .copy := by
  unfold Transpilers.get
  cases path.extension? <;> rfl

/-- Three sources, one of which imports another. In the place of the compiled third one there is a directory. -/
def blockedThird : FileTree :=
  ⟨[(["w"], .directory), (["w", "lib"], .directory), (["w", "lib", "x.js"], .file []), (["w", "src"], .directory),
    (["w", "src", "a.js"], .file (Utf8.encode "require(\"../lib/x\")")), (["w", "src", "b.js"], .file []),
    (["w", "build"], .directory), (["w", "build", "src"], .directory), (["w", "build", "src", "b.js"], .directory)],
    [], []⟩

/-- The files of the three sources. -/
def threeFiles : List SourceFile := [(⟨"lib"⟩, ⟨"x.js"⟩), (⟨"src"⟩, ⟨"a.js"⟩), (⟨"src"⟩, ⟨"b.js"⟩)]

theorem proper_blockedThird : blockedThird.Proper := by decide

theorem placed_blockedThird : copier.Placed blockedThird [⟨"lib"⟩, ⟨"src"⟩] threeFiles := by decide +kernel

theorem discover_blockedThird : copier.discover blockedThird [⟨"lib"⟩, ⟨"src"⟩] = threeFiles :=
  discover_of_listed placed_blockedThird.1

theorem separate_blockedThird : copier.Separate blockedThird [⟨"lib"⟩, ⟨"src"⟩] :=
  separate_of_copy proper_blockedThird get_default placed_blockedThird

theorem clear_blockedThird : copier.Clear blockedThird [⟨"lib"⟩, ⟨"src"⟩] := by
  have hnames : ∀ f ∈ threeFiles, (copier.root.join (copier.destination f)).components.dropLast =
      .root :: ["w", "build", f.1.text].map .name := by decide
  have hpast : ∀ f ∈ threeFiles, ∀ p ∈ copier.probes f blockedThird,
      Past (fun l => (∃ g ∈ threeFiles, l ∈ copier.way g) ∧ blockedThird.node? l = none) (copier.root.join p) := by
    decide
  rw [← discover_blockedThird] at hnames hpast
  exact ⟨fun f _ => orderly_of_links rfl, fun f hf => steady_of_names (hnames f hf), hpast⟩

theorem reportOf_blockedThird : copier.reportOf blockedThird threeFiles = ⟨2, 0⟩ := by decide

theorem compileFile_blocked : ∃ e, (copier.compileFile (⟨"src"⟩, ⟨"b.js"⟩) blockedThird).2 = .error e := by
  have hnone : (copier.compileFile (⟨"src"⟩, ⟨"b.js"⟩) blockedThird).2.toOption = none := by decide
  obtain ⟨e, he⟩ := exists_of_toOption hnone
  exact ⟨e, congrArg Prod.snd he⟩

theorem compileFile_beside_blocked :
    copier.target (⟨"src"⟩, ⟨"a.js"⟩) = ["w", "build", "src", "a.js"] ∧
      (copier.compileFile (⟨"src"⟩, ⟨"a.js"⟩) blockedThird).1.node? ["w", "build", "src", "a.js"] =
        some (.file (Utf8.encode "require(\"lib/x.js\")")) := by decide

/-- The file that fails changes nothing about the others. -/
theorem compile_any_order_blocked :
    blockedThird.Proper ∧ copier.Separate blockedThird [⟨"lib"⟩, ⟨"src"⟩] ∧
      copier.Clear blockedThird [⟨"lib"⟩, ⟨"src"⟩] ∧
      ∃ s, Reaches (copier.graph (copier.discover blockedThird [⟨"lib"⟩, ⟨"src"⟩]))
          (copier.task (copier.discover blockedThird [⟨"lib"⟩, ⟨"src"⟩])) (startRun false blockedThird) s ∧
        s.caller = false ∧ s.Returned ∧ s.world.report = ⟨2, 0⟩ ∧ (∃ e, conclude s = .error e) ∧
        s.world.tree.node? ["w", "build", "src", "a.js"] = some (.file (Utf8.encode "require(\"lib/x.js\")")) := by
  have hproper := proper_blockedThird
  obtain ⟨hplace, hcompiled⟩ := compileFile_beside_blocked
  obtain ⟨s, hreaches, hcaller, hreturned, -⟩ := exists_run copier [⟨"lib"⟩, ⟨"src"⟩] blockedThird
  obtain ⟨-, hruns⟩ := compile_any_order hproper separate_blockedThird clear_blockedThird
  have hends := (hruns s hreaches hcaller).2 hreturned
  refine ⟨hproper, separate_blockedThird, clear_blockedThird, s, hreaches, hcaller, hreturned, ?_, ?_, ?_⟩
  · rw [hends.report, discover_blockedThird, reportOf_blockedThird]
  · exact hends.failed.2 ⟨_, by rw [discover_blockedThird]; simp [threeFiles], compileFile_blocked⟩
  · rw [← hcompiled]
    apply hends.output (⟨"src"⟩, ⟨"a.js"⟩) (by rw [discover_blockedThird]; simp [threeFiles])
    rw [← hplace]
    exact List.mem_cons_self

/-! ## What is not excluded by separate outputs -/

/-- Although the files are separate, not everything ends as it does for files that are compiled alone. -/
def Differs (c : Compiler) (t : FileTree) (sources : List Path) : Prop :=
  t.Proper ∧ c.Separate t sources ∧
    ∃ s, Reaches (c.graph (c.discover t sources)) (c.task (c.discover t sources)) (startRun false t) s ∧
      s.caller = false ∧ s.Returned ∧
        (s.world.report ≠ c.reportOf t (c.discover t sources) ∨
          ∃ f ∈ c.discover t sources, ∃ l ∈ c.outputs f, s.world.tree.node? l ≠ (c.compileFile f t).1.node? l)

/-- The tree after a run over some files that makes its choices itself. -/
def solved (c : Compiler) (files : List SourceFile) (t : FileTree) : Progress :=
  (Run.solve (c.graph files) (c.task files) (fun _ => false) false ⟨t, [], ⟨0, 0⟩⟩).world

/-- What is to be evaluated to see that not everything ends as it does for files that are compiled alone. -/
def Differing (c : Compiler) (t : FileTree) (sources : List Path) (files : List SourceFile) : Prop :=
  t.Proper ∧ c.Placed t sources files ∧
    ((c.solved files t).report ≠ c.reportOf t files ∨
      ∃ f ∈ files, ∃ l ∈ c.outputs f, (c.solved files t).tree.node? l ≠ (c.compileFile f t).1.node? l)

instance (c : Compiler) (t : FileTree) (sources : List Path) (files : List SourceFile) :
    Decidable (c.Differing t sources files) := inferInstanceAs (Decidable (_ ∧ _))

theorem differs_of_solved (hget : ∀ path, c.transpilers.get path = .copy) (h : c.Differing t sources files) :
    c.Differs t sources := by
  obtain ⟨hp, hplaced, h⟩ := h
  have hsep := separate_of_copy hp hget hplaced
  have hfound := discover_of_listed hplaced.1
  subst hfound
  exact ⟨hp, hsep, _, Run.reaches_solve _ _ _ _ _, Run.solve_caller _ _ _, Run.solve_returns _ _ _ _ _, h⟩

/-- One of two sources imports the directory that will be made for the other one. -/
def aboutBuilt : FileTree :=
  ⟨[(["w"], .directory), (["w", "lib"], .directory), (["w", "lib", "x.js"], .file []), (["w", "src"], .directory),
    (["w", "src", "a.js"], .file (Utf8.encode "require(\"../build/lib\")"))], [], []⟩

/-- Writes to `build`, by way of another directory. -/
def climber : Compiler := { copier with outDir := ⟨"gone/../build"⟩ }

/-- Two sources were compiled, and then the other directory was removed. -/
def builtBefore : FileTree :=
  ⟨[(["w"], .directory), (["w", "src"], .directory), (["w", "src", "a.js"], .file []), (["w", "src", "b.js"], .file []),
    (["w", "build"], .directory), (["w", "build", "src"], .directory), (["w", "build", "src", "a.js"], .file []),
    (["w", "build", "src", "a.js.meta.cbor"],
      .file (Record.encode ⟨⟨"gone/../build/src/a.js"⟩, (Digest.hash []).toHex, []⟩)),
    (["w", "build", "src", "b.js"], .file []),
    (["w", "build", "src", "b.js.meta.cbor"],
      .file (Record.encode ⟨⟨"gone/../build/src/b.js"⟩, (Digest.hash []).toHex, []⟩))], [], []⟩

/-- The compiled files of two sources are one file with two names. -/
def oneFileTwice : FileTree :=
  ⟨[(["w"], .directory), (["w", "src"], .directory), (["w", "src", "a.js"], .file []),
    (["w", "src", "b.js"], .file [0x78]), (["w", "build"], .directory), (["w", "build", "src"], .directory),
    (["w", "build", "src", "a.js"], .file []), (["w", "build", "src", "b.js"], .file [])],
    [[["w", "build", "src", "a.js"], ["w", "build", "src", "b.js"]]], []⟩

theorem differs_aboutBuilt : copier.Differs aboutBuilt [⟨"lib"⟩, ⟨"src"⟩] := by
  have hdiffering : copier.Differing aboutBuilt [⟨"lib"⟩, ⟨"src"⟩] [(⟨"lib"⟩, ⟨"x.js"⟩), (⟨"src"⟩, ⟨"a.js"⟩)] := by
    decide +kernel
  exact differs_of_solved get_default hdiffering

theorem differs_builtBefore : climber.Differs builtBefore [⟨"src"⟩] := by
  have hdiffering : climber.Differing builtBefore [⟨"src"⟩] [(⟨"src"⟩, ⟨"a.js"⟩), (⟨"src"⟩, ⟨"b.js"⟩)] := by
    decide +kernel
  exact differs_of_solved get_default hdiffering

theorem differs_oneFileTwice : copier.Differs oneFileTwice [⟨"src"⟩] := by
  have hdiffering : copier.Differing oneFileTwice [⟨"src"⟩] [(⟨"src"⟩, ⟨"a.js"⟩), (⟨"src"⟩, ⟨"b.js"⟩)] := by
    decide
  exact differs_of_solved get_default hdiffering

/-- What the import means is no output, whatever there is. -/
theorem unseen_aboutBuilt (u : FileTree) : ∀ p ∈ Resolve.probed u copier.root ⟨"src"⟩ "../build/lib",
    ∀ f ∈ [((⟨"lib"⟩, ⟨"x.js"⟩) : SourceFile), (⟨"src"⟩, ⟨"a.js"⟩)],
      place (copier.root.join p) ∉ copier.outputs f := by
  have hplaces : ∀ p ∈ Resolve.spellings (Resolve.candidate ⟨"src"⟩ "../build/lib") ++
      (Resolve.spellings (Resolve.candidate ⟨"src"⟩ "../build/lib")).map fun dir => dir.join Resolve.packageFile,
      ∀ f ∈ [((⟨"lib"⟩, ⟨"x.js"⟩) : SourceFile), (⟨"src"⟩, ⟨"a.js"⟩)],
        place (copier.root.join p) ∉ copier.outputs f := by decide +kernel
  exact fun p hp => hplaces p (Resolve.mem_of_mem_probed hp)

/-- The schedule matters where a directory that is made is looked at by an import, where the path to the outputs
climbs out of one, and where two compiled files are one. -/
theorem schedule_matters :
    copier.Differs aboutBuilt [⟨"lib"⟩, ⟨"src"⟩] ∧
      (∀ u, ∀ p ∈ Resolve.probed u copier.root ⟨"src"⟩ "../build/lib",
        ∀ f ∈ [((⟨"lib"⟩, ⟨"x.js"⟩) : SourceFile), (⟨"src"⟩, ⟨"a.js"⟩)],
          place (copier.root.join p) ∉ copier.outputs f) ∧
      climber.Differs builtBefore [⟨"src"⟩] ∧ copier.Differs oneFileTwice [⟨"src"⟩] :=
  ⟨differs_aboutBuilt, unseen_aboutBuilt, differs_builtBefore, differs_oneFileTwice⟩

end Bundler.Compiler
