import Bundler.Proofs.Compile.Agreed
import Bundler.Proofs.Compile.Settled
/-!
# Compiling again

When a tree was compiled without an error, compiling it once more does nothing, whoever's turn it is at each step of
both runs: each file counts as up to date, so that no transpiler is run, and the tree stays as it is (`compile_again`).
It does not matter what there was in the place of the outputs, but two things can break this. A source root that climbs
out of a directory that is made for outputs is found only the second time, and records that are one file under several
names cannot all be right (`compile_again_differs`).
-/

namespace Bundler.Compiler

open FileTree
open Run (Reaches Returned Inevitably replay)

variable {c : Compiler} {files : List SourceFile} {sources : List Path} {f : SourceFile} {t u v w : FileTree}
  {root : Path} {report : CompileReport} {p : Progress} {s : Run Progress Empty}

/-! ## Nothing is left to do -/

/-- Nothing was done so far but to count files that are up to date. -/
structure Idle (t : FileTree) (p : Progress) : Prop where
  tree : p.tree = t
  errors : p.errors = []
  compiled : p.report.compiled = 0

section Cached

variable (hcached : ∀ f ∈ files, c.compileFile f t = (t, .ok .cached))
include hcached

/-- The task of a file that is up to date counts it. -/
theorem Idle.task (h : Idle t p) (cancelled : Bool) (id : TaskId) :
    (c.task files cancelled id p).2 = .ok () ∧ Idle t (c.task files cancelled id p).1 := by
  unfold Compiler.task
  split
  · exact ⟨rfl, h⟩
  · split
    · exact ⟨rfl, h⟩
    · next f hf =>
      rw [h.tree, hcached f (List.mem_of_getElem? hf)]
      exact ⟨rfl, rfl, h.errors, h.compiled⟩

theorem Idle.replay (h : Idle t p) (ids : List TaskId) : Idle t (replay (c.task files) ids p) := by
  induction ids with
  | nil => exact h
  | cons id ids ih => exact (ih.task hcached false id).2

/-- A run over files that are up to date leaves the tree as it is, also one that is cancelled. -/
theorem idle_of_run {cancelled : Bool}
    (h : Reaches (c.graph files) (c.task files) (startRun cancelled t) s) : Idle t s.world :=
  h.forall_world ⟨rfl, rfl, rfl⟩ fun cancelled id _ hp => (hp.task hcached cancelled id).2

/-- Unless its caller cancels, the run answers that all files are up to date. -/
theorem conclude_of_cached (h : Reaches (c.graph files) (c.task files) (startRun false t) s)
    (hcaller : s.caller = false) (hreturned : s.Returned) : conclude s = .ok ⟨0, files.length⟩ := by
  obtain ⟨answer, phase⟩ := hreturned
  have sound := h.sound (Run.sound_start _ _)
  have hstart : Idle t ⟨t, [], ⟨0, 0⟩⟩ := ⟨rfl, rfl, rfl⟩
  have undisturbed := h.undisturbed hcaller fun id before _ _ =>
    ((hstart.replay hcached before).task hcached false id).1
  obtain rfl : answer = .ok () := by
    rcases sound.answer_cases phase hcaller undisturbed.finished with rfl | ⟨pending, rfl⟩
    · rfl
    · exact absurd (acyclic_graph c _) (sound.unsolvable_spec phase).2.2.2.2
  have hidle := idle_of_run hcached h
  have hanswer : conclude s = .ok s.world.report := by
    rw [conclude_of_ok phase, Progress.answer, hidle.errors]
  rw [task_eq] at h
  obtain ⟨-, hcount, -⟩ := made_of_report h ⟨_, phase⟩ hanswer
  rw [total, hidle.compiled, Nat.zero_add] at hcount
  rw [hanswer, ← hcount, ← hidle.compiled]

end Cached

/-- Compiling the tree does nothing: all of its files are up to date, and any run over them leaves the tree as it is
and, unless its caller cancels, answers so. -/
structure UpToDate (c : Compiler) (sources : List Path) (t : FileTree) (n : Nat) : Prop where
  current : ∀ f ∈ c.discover t sources, c.compileFile f t = (t, .ok .cached)
  compiled : c.compileTree sources false t = (t, .ok ⟨0, n⟩)
  runs : ∀ s, Reaches (c.graph (c.discover t sources)) (c.task (c.discover t sources)) (startRun false t) s →
    s.world.tree = t ∧ Inevitably (c.graph (c.discover t sources)) (c.task (c.discover t sources)) Returned s ∧
      (s.caller = false → s.Returned → conclude s = .ok ⟨0, n⟩)

theorem upToDate_of_cached (hcached : ∀ f ∈ c.discover t sources, c.compileFile f t = (t, .ok .cached)) :
    c.UpToDate sources t (c.discover t sources).length := by
  refine ⟨hcached, ?_, fun s h => ⟨(idle_of_run hcached h).tree, (h.sound (Run.sound_start _ _)).inevitably_returns _,
    conclude_of_cached hcached h⟩⟩
  obtain ⟨s, hreaches, hcaller, hreturned, heq⟩ := exists_run c sources t
  rw [heq, (idle_of_run hcached hreaches).tree, conclude_of_cached hcached hreaches hcaller hreturned]

/-! ## Trees whose outputs lie elsewhere -/

/-- The outputs lie outside the source roots, no two files share one, and where a transpiler succeeds it makes the
compiled file and writes nothing else. -/
structure Confined (c : Compiler) (sources : List Path) (t : FileTree) : Prop where
  intact : t.Intact
  outside : ∀ f ∈ c.discover t sources, ∀ l ∈ c.outputs f, ∀ root ∈ sources, ¬ place (c.root.join root) <+: l
  disjoint : (c.discover t sources).Pairwise fun f g => ¬ c.Meet f g
  created : ∀ f ∈ c.discover t sources, ∀ v w content, v.Intact → v.read (c.root.join (source f)) = .ok content →
    c.transpile f v = (w, .ok ()) → c.Created f v w

/-- The second names of outputs are no sources and no records of other files, and transpilers leave it so; and the path
to no source root climbs out of an output, or out of a directory on the way to one, that is not there yet. -/
structure Secluded (c : Compiler) (sources : List Path) (t : FileTree) : Prop where
  unshared : c.Unshared (c.discover t sources) t
  stays : ∀ f ∈ c.discover t sources, ∀ v w content, v.Intact → c.Unshared (c.discover t sources) v →
    v.read (c.root.join (source f)) = .ok content → c.transpile f v = (w, .ok ()) →
    c.Unshared (c.discover t sources) w
  climbs : ∀ root ∈ sources, t.node? (place (c.root.join root)) = some .directory →
    ∀ k ∈ trail (c.root.join root), ¬ k <+: place (c.root.join root) →
      (∃ f ∈ c.discover t sources, k ∈ c.way f ∨ k = c.target f) → t.node? k = some .directory

theorem Confined.free (h : c.Confined sources t) : c.Free (c.discover t sources) where
  source f hf g hg hmem := by
    obtain ⟨hroot, -, names, hne, hpath, content, hfile⟩ := (mem_discover h.intact.toProper).1 hg
    have hspelled : Spelled names := fun name hname => h.intact.spelled hfile name (List.mem_append_right _ hname)
    apply h.outside f hf _ hmem g.1 hroot
    rw [sourcePlace_eq hne hspelled hpath]
    exact List.prefix_append _ _
  output f hf g hg hmeet := by
    by_contra hne
    have hsymm : Std.Symm fun f g => ¬ c.Meet f g := ⟨fun _ _ hnot hmeet => hnot (meet_symm hmeet)⟩
    exact h.disjoint.forall hf hg hne hmeet

section Found

variable (h : c.Confined sources t) (hs : c.Secluded sources t) (hu : u.Intact)
  (hleaves : c.Leaves (c.discover t sources) (c.discover t sources) t u) (hroot : root ∈ sources)
include h hleaves hroot

/-- A file below a source root was there before. -/
theorem Confined.file_of_file {names : Location} {content : Bytes}
    (hfile : u.node? (place (c.root.join root) ++ names) = some (.file content)) :
    ∃ old, t.node? (place (c.root.join root) ++ names) = some (.file old) := by
  rcases hleaves.file _ _ hfile with ⟨f, hf, hl⟩ | hold
  · exact absurd (List.prefix_append _ _) (h.outside f hf _ hl root hroot)
  · exact hold

/-- Below a source root that is there the same files are found. -/
theorem Confined.file_iff (hdir : t.at? (c.root.join root) = some .directory) {names : Location} (hne : names ≠ []) :
    (∃ content, u.node? (place (c.root.join root) ++ names) = some (.file content)) ↔
      ∃ content, t.node? (place (c.root.join root) ++ names) = some (.file content) := by
  refine ⟨fun ⟨_, hfile⟩ => h.file_of_file hleaves hroot hfile, fun ⟨content, hfile⟩ => ⟨content, ?_⟩⟩
  have hspelled : Spelled names := fun name hname => h.intact.spelled hfile name (List.mem_append_right _ hname)
  have hplace : c.sourcePlace (root, ⟨"/".intercalate names⟩) = place (c.root.join root) ++ names :=
    sourcePlace_eq hne hspelled rfl
  have hf : (root, ⟨"/".intercalate names⟩) ∈ c.discover t sources :=
    (mem_discover h.intact.toProper).2 ⟨hroot, hdir, names, hne, rfl, content, hfile⟩
  rw [← hplace] at hfile ⊢
  exact hleaves.sources _ hf content hfile

include hs

/-- A source root with a file below it was found before. -/
theorem Confined.at?_of_file (hdir : u.at? (c.root.join root) = some .directory) {names : Location} {content : Bytes}
    (hne : names ≠ []) (hfile : u.node? (place (c.root.join root) ++ names) = some (.file content)) :
    t.at? (c.root.join root) = some .directory := by
  obtain ⟨old, hold⟩ := h.file_of_file hleaves hroot hfile
  -- all that lies above the file was there, and what the root climbs out of was not made
  have above {k : Location} (hk : k <+: place (c.root.join root)) : t.node? k = some .directory := by
    refine h.intact.above hold (hk.trans (List.prefix_append _ _)) fun heq => hne ?_
    have hlength := hk.length_le
    rw [heq, List.length_append] at hlength
    exact List.length_eq_zero_iff.1 (by omega)
  obtain ⟨hps, hfollow, -⟩ := at?_eq_some.1 hdir
  have hplace := above List.prefix_rfl
  refine at?_eq_some.2 ⟨hps, follow_of_along (fun k hk hmade => ?_) (by rw [hplace]; rfl) hfollow, hplace⟩
  by_cases hpre : k <+: place (c.root.join root)
  · exact above hpre
  · rcases hleaves.made k hmade with hthere | hway
    · exact hthere
    · exact hs.climbs root hroot hplace k (mem_trail_of_mem_along hk) hpre hway

include hu

theorem found_perm : (c.found u root).Perm (c.found t root) := by
  by_cases hdir : t.at? (c.root.join root) = some .directory
  · have hdir' : u.at? (c.root.join root) = some .directory := by
      obtain ⟨hps, hfollow, hnode⟩ := at?_eq_some.1 hdir
      have hnode' := hleaves.directory _ hnode
      exact at?_eq_some.2 ⟨hps, follow_of_directories hleaves.directory (by rw [hnode']; rfl) hfollow, hnode'⟩
    rw [found_of_directory hdir, found_of_directory hdir']
    refine ((List.perm_ext_iff_of_nodup (hu.nodup_filesBelow _) (h.intact.nodup_filesBelow _)).2 fun names => ?_).map _
    rw [hu.mem_filesBelow, h.intact.mem_filesBelow]
    exact and_congr_right fun hne => h.file_iff hleaves hroot hdir hne
  · rw [found_of_none hdir]
    by_cases hdir' : u.at? (c.root.join root) = some .directory
    · have hnone : u.filesBelow (place (c.root.join root)) = [] := by
        refine List.eq_nil_iff_forall_not_mem.2 fun names hnames => hdir ?_
        obtain ⟨hne, content, hfile⟩ := hu.mem_filesBelow.1 hnames
        exact h.at?_of_file hs hleaves hroot hdir' hne hfile
      rw [found_of_directory hdir', hnone]
      exact .refl _
    · rw [found_of_none hdir']

end Found

/-- A tree is compiled again. Outputs lie outside the source roots and apart from each other, and transpilers make
compiled files and write nothing else; what was there in the place of the outputs is of no account. After any run that
answers with a report, that report counts all files, and a run over the tree as it is then does nothing, whatever the
transpilers: it finds as many files and all of them up to date. -/
theorem compile_again (h : c.Confined sources t) (hs : c.Secluded sources t) {cancelled : Bool}
    (hrun : Reaches (c.graph (c.discover t sources)) (c.task (c.discover t sources)) (startRun cancelled t) s)
    (hreturned : s.Returned) (hanswer : conclude s = .ok report) (hsize : Sized s.world.tree) :
    report.compiled + report.cached = (c.discover t sources).length ∧
      ∀ transpilers programs concurrency, ({ c with transpilers, programs, concurrency } : Compiler).UpToDate sources
        s.world.tree (c.discover t sources).length := by
  obtain ⟨done, hperm, hall⟩ := succeeds_of_run hrun hreturned hanswer
  have hcount : report.compiled + report.cached = (c.discover t sources).length := by
    rw [task_eq] at hrun
    exact (made_of_report hrun hreturned hanswer).2.1
  obtain ⟨hu, -, hleaves, hsettled⟩ := settled_of_compiledAll h.intact hs.unshared h.free
    (fun f hf => exists_filed h.intact.toProper hf) (fun f hf => ⟨h.created f hf, hs.stays f hf⟩) hall
    fun f hf => hperm.mem_iff.1 hf
  have hfound : (c.discover s.world.tree sources).Perm (c.discover t sources) := by
    rw [discover_eq, discover_eq]
    exact List.Perm.flatMap_left _ fun root hroot => found_perm h hs hu hleaves hroot
  refine ⟨hcount, fun transpilers programs concurrency => ?_⟩
  rw [← hfound.length_eq]
  refine upToDate_of_cached fun f hf => ?_
  have hf : c.Settled f s.world.tree := hsettled f (hperm.mem_iff.2 (hfound.mem_iff.1 hf))
  have hsame : ({ c with transpilers, programs, concurrency } : Compiler).Settled f s.world.tree := hf
  exact hsame.compileFile fun bytes hbytes => hsize _ _ hbytes

/-! ## Sources that are copied -/

/-- Copying makes the compiled file, under all its names. -/
theorem created_of_copy (hget : c.transpilers.get (source f) = .copy) (hv : v.Intact)
    (h : c.transpile f v = (w, .ok ())) : c.Created f v w ∧ w.links = v.links := by
  have hcopy := copy_of_transpile hget h
  obtain ⟨hsame, hthere⟩ := sameBut_copy hv hcopy
  refine ⟨⟨hthere, hsame.entry, (hsame.directory _).2, fun l hl hne => ?_, hv.copy hcopy⟩, hsame.links⟩
  obtain ⟨⟨old, hold⟩, -⟩ := hv.file_of_mem_names hl hne
  have hsome := hsame.there l (by rw [hold]; rfl)
  have hnot : w.node? l ≠ some .directory := by
    rw [ne_eq, hsame.directory, hold]
    exact fun heq => nomatch heq
  cases hnode : w.node? l with
  | none =>
    rw [hnode] at hsome
    cases hsome
  | some n =>
    cases n with
    | directory => exact absurd hnode hnot
    | file content => exact ⟨content, rfl⟩

/-- The files of a tree, with outputs outside the source roots and apart from each other. -/
def Fenced (c : Compiler) (t : FileTree) (sources : List Path) (files : List SourceFile) : Prop :=
  t.Proper ∧ c.Listed t sources files ∧ files.Pairwise (fun f g => ¬ c.Meet f g) ∧
    ∀ f ∈ files, ∀ l ∈ c.outputs f, ∀ root ∈ sources, ¬ place (c.root.join root) <+: l

instance (c : Compiler) (t : FileTree) (sources : List Path) (files : List SourceFile) :
    Decidable (c.Fenced t sources files) := inferInstanceAs (Decidable (_ ∧ _))

theorem confined_of_copy (hget : ∀ path, c.transpilers.get path = .copy) (hlinked : t.WellLinked)
    (hdistinct : ∀ group ∈ t.links, group.Nodup) (h : c.Fenced t sources files) : c.Confined sources t := by
  obtain ⟨hproper, hlisted, hdisjoint, houtside⟩ := h
  obtain rfl := discover_of_listed hlisted
  exact ⟨⟨hproper, hlinked, hdistinct⟩, houtside, hdisjoint,
    fun f _ v w content hv _ hmade => (created_of_copy (hget _) hv hmade).1⟩

/-- Two scripts. The first one has a record that is none, and the second one was compiled. -/
def halfBuilt : FileTree :=
  ⟨[(["w"], .directory), (["w", "src"], .directory), (["w", "src", "a.js"], .file []),
    (["w", "src", "b.js"], .file [0x78]),
    (["w", "build"], .directory), (["w", "build", "src"], .directory),
    (["w", "build", "src", "a.js.meta.cbor"], .file [0x78]), (["w", "build", "src", "b.js"], .file [0x78]),
    (["w", "build", "src", "b.js.meta.cbor"],
      .file (Record.encode ⟨⟨"build/src/b.js"⟩, (Digest.hash [0x78]).toHex, []⟩))], [], []⟩

/-- Two scripts, one of them in a source root whose path leads through the directory of the outputs. -/
def detour : FileTree :=
  ⟨[(["w"], .directory), (["w", "src"], .directory), (["w", "src", "a.js"], .file []), (["w", "lib"], .directory),
    (["w", "lib", "b.js"], .file [])], [], []⟩

/-- Two scripts whose records are one file. -/
def oneRecord : FileTree :=
  ⟨[(["w"], .directory), (["w", "src"], .directory), (["w", "src", "a.js"], .file []),
    (["w", "src", "b.js"], .file [0x78]),
    (["w", "build"], .directory), (["w", "build", "src"], .directory),
    (["w", "build", "src", "a.js.meta.cbor"], .file []), (["w", "build", "src", "b.js.meta.cbor"], .file [])],
    [[["w", "build", "src", "a.js.meta.cbor"], ["w", "build", "src", "b.js.meta.cbor"]]], []⟩

/-- The source roots of `detour`. -/
def detourRoots : List Path := [⟨"src"⟩, ⟨"build/../lib"⟩]

/-- Some files were compiled and then other ones, over what the first ones have left. -/
def Twice (c : Compiler) (t : FileTree) (sources : List Path) (files files' : List SourceFile)
    (report report' : CompileReport) : Prop :=
  (conclude (c.ownRun files t)).toOption = some report ∧
    c.Listed (c.ownRun files t).world.tree sources files' ∧
    (conclude (c.ownRun files' (c.ownRun files t).world.tree)).toOption = some report'

instance (c : Compiler) (t : FileTree) (sources : List Path) (files files' : List SourceFile)
    (report report' : CompileReport) : Decidable (c.Twice t sources files files' report report') :=
  inferInstanceAs (Decidable (_ ∧ _))

theorem fenced_halfBuilt : copier.Fenced halfBuilt [⟨"src"⟩] twoScripts := by decide

theorem ownRun_halfBuilt :
    (conclude (copier.ownRun twoScripts halfBuilt)).toOption = some ⟨1, 1⟩ ∧
      ∀ entry ∈ (copier.ownRun twoScripts halfBuilt).world.tree.entries, fileLength entry.2 < Cbor.wordCount := by
  decide +kernel

theorem trail_source_root : ∀ k ∈ trail (copier.root.join ⟨"src"⟩), k <+: place (copier.root.join ⟨"src"⟩) := by
  decide

/-- The one script is compiled, because its record cannot be read, and the other one is not. After that both are up to
date. -/
theorem compile_again_halfBuilt :
    ∃ u, copier.compileTree [⟨"src"⟩] false halfBuilt = (u, .ok ⟨1, 1⟩) ∧
      copier.compileTree [⟨"src"⟩] false u = (u, .ok ⟨0, 2⟩) := by
  have hfenced := fenced_halfBuilt
  obtain ⟨hanswer, hlength⟩ := ownRun_halfBuilt
  have hanswer := eq_of_toOption hanswer
  have hfound := discover_of_listed hfenced.2.1
  have hconfined : copier.Confined [⟨"src"⟩] halfBuilt :=
    confined_of_copy get_default (fun group hgroup => absurd hgroup List.not_mem_nil)
      (fun group hgroup => absurd hgroup List.not_mem_nil) hfenced
  have hsecluded : copier.Secluded [⟨"src"⟩] halfBuilt := by
    refine ⟨fun f hf l hl m hm hne => absurd (List.mem_singleton.1 hm) hne, fun f _ v w content hv hshare _ hmade =>
      hshare.congr (created_of_copy (get_default _) hv hmade).2, fun root hroot _ k hk hnot => ?_⟩
    obtain rfl := List.mem_singleton.1 hroot
    exact absurd (trail_source_root k hk) hnot
  have hrun : Reaches (copier.graph (copier.discover halfBuilt [⟨"src"⟩]))
      (copier.task (copier.discover halfBuilt [⟨"src"⟩])) (startRun false halfBuilt)
      (copier.ownRun twoScripts halfBuilt) := hfound ▸ Run.reaches_solve _ _ _ _ _
  obtain ⟨-, hagain⟩ := compile_again hconfined hsecluded hrun (Run.solve_returns _ _ _ _ _) hanswer
    (sized_of_entries hlength)
  have htwice := (hagain copier.transpilers copier.programs copier.concurrency).compiled
  rw [hfound] at htwice
  exact ⟨_, (compileTree_eq hfound).trans (congrArg _ hanswer), htwice⟩

/-! ## What is done again -/

/-- The outputs are confined and the tree is compiled without an error, and still compiling it again does something. -/
def Restless (c : Compiler) (sources : List Path) (t : FileTree) : Prop :=
  c.Confined sources t ∧ ∃ u v report report', c.compileTree sources false t = (u, .ok report) ∧
    c.compileTree sources false u = (v, .ok report') ∧ report' ≠ ⟨0, (c.discover t sources).length⟩

theorem restless_of_twice {files' : List SourceFile} {report' : CompileReport} (hconfined : c.Confined sources t)
    (hfound : c.discover t sources = files) (h : c.Twice t sources files files' report report')
    (hne : report' ≠ ⟨0, files.length⟩) : c.Restless sources t := by
  obtain ⟨hanswer, hlisted, hanswer'⟩ := h
  exact ⟨hconfined, _, _, report, report', (compileTree_eq hfound).trans (congrArg _ (eq_of_toOption hanswer)),
    (compileTree_eq (discover_of_listed hlisted)).trans (congrArg _ (eq_of_toOption hanswer')), hfound ▸ hne⟩

theorem restless_detour : copier.Restless detourRoots detour := by
  have hfenced : copier.Fenced detour detourRoots [(⟨"src"⟩, ⟨"a.js"⟩)] := by decide
  have htwice : copier.Twice detour detourRoots [(⟨"src"⟩, ⟨"a.js"⟩)]
      [(⟨"src"⟩, ⟨"a.js"⟩), (⟨"build/../lib"⟩, ⟨"b.js"⟩)] ⟨1, 0⟩ ⟨1, 1⟩ := by decide +kernel
  exact restless_of_twice (confined_of_copy get_default (fun group hgroup => absurd hgroup List.not_mem_nil)
    (fun group hgroup => absurd hgroup List.not_mem_nil) hfenced) (discover_of_listed hfenced.2.1) htwice (by decide)

theorem restless_oneRecord : copier.Restless [⟨"src"⟩] oneRecord := by
  have hfenced : copier.Fenced oneRecord [⟨"src"⟩] twoScripts := by decide
  have htwice : copier.Twice oneRecord [⟨"src"⟩] twoScripts twoScripts ⟨2, 0⟩ ⟨2, 0⟩ := by decide +kernel
  refine restless_of_twice (confined_of_copy get_default (fun group hgroup l hl => ?_) (by decide) hfenced)
    (discover_of_listed hfenced.2.1) htwice (by decide)
  obtain rfl := List.mem_singleton.1 hgroup
  rcases List.mem_cons.1 hl with rfl | hl
  · exact ⟨[], rfl⟩
  · obtain rfl := List.mem_singleton.1 hl
    exact ⟨[], rfl⟩

/-- The second time, the source root that leads through the directory of the outputs is there, and so is a script to
compile; and of two records that are one file one is never right, so that both scripts are compiled every time. -/
theorem compile_again_differs :
    copier.Restless detourRoots detour ∧ copier.Restless [⟨"src"⟩] oneRecord :=
  ⟨restless_detour, restless_oneRecord⟩

end Bundler.Compiler
