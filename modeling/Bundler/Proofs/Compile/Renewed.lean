import Bundler.Proofs.Compile.Cache
import Bundler.Proofs.Compile.Complete
/-!
# Compiling a tree over what was compiled before

A source tree is compiled where the outputs of others lie already (`Laid`). The trees do not get into each other's way
(`Consistent`, `Hidden`, `Telling`). Then a file that counts as up to date is so, because its record names the source
that the compiled file beside it was made of, however long ago (`Over.clean_of_cached`); and a file that is compiled
becomes what it is when there is nothing else (`Over.clean_of_fresh`). So after a run that succeeds all files are what
they are in their source tree (`clean_next`).
-/

namespace Bundler.Compiler

open FileTree
open Run (Reaches startedIn replay)

variable {c : Compiler} {F : SourceFile → Bytes → Bytes} {t u u' v w T : FileTree} {all Ts : List FileTree}
  {sources : List Path} {files done : List SourceFile} {f : SourceFile} {l : Location}

/-! ## Runs that succeed -/

/-- Files are compiled one after the other, the first of the list last, and each of them without an error. -/
inductive CompiledAll (c : Compiler) (t : FileTree) : List SourceFile → FileTree → Prop
  | none : CompiledAll c t [] t
  | next {files : List SourceFile} {f : SourceFile} {u u' : FileTree} {x : Compiled} (h : CompiledAll c t files u)
    (hmade : c.compileFile f u = (u', .ok x)) : CompiledAll c t (f :: files) u'

/-- All files of a tree are compiled, in any order, and each of them without an error. -/
def Succeeds (c : Compiler) (sources : List Path) (t u : FileTree) : Prop :=
  ∃ files, files.Perm (c.discover t sources) ∧ c.CompiledAll t files u

/-- Tasks that all end well, and of which none notes an error, have compiled their files. -/
theorem compiledAll_of_replay {ids : List TaskId} (hids : ∀ id ∈ ids, id < files.length)
    (hanswers : ∀ id before, id :: before <:+ ids → (taskOf (fun _ => c.compileFile) files false id
      (replay (taskOf (fun _ => c.compileFile) files) before ⟨t, [], ⟨0, 0⟩⟩)).2 = .ok ())
    (herrors : (replay (taskOf (fun _ => c.compileFile) files) ids ⟨t, [], ⟨0, 0⟩⟩).errors = []) :
    c.CompiledAll t (ids.filterMap (files[·]?))
      (replay (taskOf (fun _ => c.compileFile) files) ids ⟨t, [], ⟨0, 0⟩⟩).tree := by
  induction ids with
  | nil => exact .none
  | cons id ids ih =>
    rw [List.forall_mem_cons] at hids
    obtain ⟨f, hf⟩ : ∃ f, files[id]? = some f := ⟨_, List.getElem?_eq_getElem hids.1⟩
    obtain ⟨hbefore, ⟨x, hmade⟩, -⟩ := counted_of_taskOf hf (hanswers id ids List.suffix_rfl) herrors
    rw [List.filterMap_cons_some hf]
    exact .next (ih hids.2 (fun id' before h => hanswers id' before (h.trans (List.suffix_cons id ids))) hbefore) hmade

/-- A run of the task graph that answers with a report is one that succeeds. -/
theorem succeeds_of_run {cancelled : Bool} {r : Run Progress Empty} {report : CompileReport}
    (h : Reaches (c.graph (c.discover t sources)) (c.task (c.discover t sources)) (startRun cancelled t) r)
    (hreturned : r.Returned) (hanswer : conclude r = .ok report) : c.Succeeds sources t r.world.tree := by
  rw [task_eq] at h
  obtain ⟨phase, herrors, -⟩ := of_conclude hreturned hanswer
  obtain ⟨hperm, hworld⟩ := ran_all h phase
  have hfiles := hperm.filterMap ((c.discover t sources)[·]?)
  rw [filterMap_range] at hfiles
  rw [hworld] at herrors ⊢
  exact ⟨_, hfiles, compiledAll_of_replay (fun id hid => List.mem_range.1 (hperm.mem_iff.1 hid))
    (fun id before hsuffix => Run.ok_of_started h phase hsuffix) herrors⟩

theorem succeeds_of_compileTree {report : CompileReport} (h : c.compileTree sources false t = (u, .ok report)) :
    c.Succeeds sources t u := by
  obtain ⟨r, hreaches, -, hreturned, heq⟩ := exists_run c sources t
  rw [h] at heq
  obtain ⟨rfl, hanswer⟩ := Prod.mk.inj heq
  exact succeeds_of_run hreaches hreturned hanswer.symm

/-! ## Source trees that go together -/

/-- The transpiler of a file writes the compiled file only, and where it succeeds it makes `F` of the source. -/
structure Overwrites (c : Compiler) (file : SourceFile) (F : Bytes → Bytes) : Prop where
  tidy : c.Tidy file
  makes : ∀ t t' content, c.Orderly file t → t.read (c.root.join (source file)) = .ok content →
    c.transpile file t = (t', .ok ()) → t'.node? (c.target file) = some (.file (F content))

theorem Overwrites.contract {F : Bytes → Bytes} (h : c.Overwrites f F) : c.Contract f F where
  keeps t t' r content ho hread hmade := by
    have htouched := h.tidy t t' r content ho hread hmade
    refine ⟨ho.touched htouched fun l hl => hl ▸ ho.target, ?_⟩
    exact htouched.same (recordPlace_ne_target c f) fun hw => hw.elim
  makes := h.makes

/-- A file is found in one of the trees. -/
def Found (c : Compiler) (sources : List Path) (Ts : List FileTree) (f : SourceFile) : Prop :=
  ∃ T ∈ Ts, f ∈ c.discover T sources

/-- The outputs of all files that are found in the trees. -/
def AnyOutput (c : Compiler) (sources : List Path) (Ts : List FileTree) (l : Location) : Prop :=
  ∃ f, c.Found sources Ts f ∧ l ∈ c.outputs f

/-- All that leads to the outputs of these files. -/
def AnyWay (c : Compiler) (sources : List Path) (Ts : List FileTree) (l : Location) : Prop :=
  ∃ f, c.Found sources Ts f ∧ l ∈ c.way f

/-- The specifiers that occur in the script that is made of a source. -/
def mentioned (c : Compiler) (F : SourceFile → Bytes → Bytes) (T : FileTree) (f : SourceFile) : List String :=
  if isScript (source f) then
    match T.read (c.root.join (source f)) with
    | .error _ => []
    | .ok content => (Import.scan (F f content)).map (·.specifier)
  else []

theorem mem_mentioned {content : Bytes} {i : Import} (hscript : isScript (source f) = true)
    (hread : T.read (c.root.join (source f)) = .ok content) (hi : i ∈ Import.scan (F f content)) :
    i.specifier ∈ c.mentioned F T f := by
  unfold mentioned
  rw [if_pos hscript, hread]
  exact List.mem_map_of_mem hi

/-- The paths that are looked at to see what a specifier in a file names. -/
def lookedAt (c : Compiler) (T : FileTree) (f : SourceFile) (s : String) : List Path :=
  Resolve.probed T c.root ((source f).parent?.getD ⟨""⟩) s

/-- The outputs of the source trees are not there yet; those of different files are apart from each other, outside the
source roots, and never looked at to see what an import names; the transpilers make functions of the sources; and the
imports name the same modules in all the trees. -/
structure Consistent (c : Compiler) (F : SourceFile → Bytes → Bytes) (sources : List Path) (all : List FileTree) :
    Prop where
  proper : ∀ T ∈ all, T.Proper
  links : ∀ T ∈ all, T.WellLinked
  empty : ∀ T ∈ all, ∀ l, c.AnyOutput sources all l → T.node? l = none
  overwrites : ∀ f, c.Found sources all f → c.Overwrites f (F f)
  disjoint : ∀ f g, c.Found sources all f → c.Found sources all g → c.Meet f g → f = g
  outside : ∀ l, c.AnyOutput sources all l → ∀ root ∈ sources, ¬ place (c.root.join root) <+: l
  alike : ∀ T ∈ all, ∀ f ∈ c.discover T sources, ∀ s ∈ c.mentioned F T f, ∀ T' ∈ all, c.names f T' s = c.names f T s
  unseen : ∀ T ∈ all, ∀ f ∈ c.discover T sources, ∀ s ∈ c.mentioned F T f, ∀ p ∈ c.lookedAt T f s,
    ¬ c.AnyOutput sources all (place (c.root.join p))

/-- Neither imports nor source roots look at a directory that is made for outputs, or climb out of one. -/
structure Hidden (c : Compiler) (F : SourceFile → Bytes → Bytes) (sources : List Path) (all : List FileTree) :
    Prop where
  past : ∀ T ∈ all, ∀ f ∈ c.discover T sources, ∀ s ∈ c.mentioned F T f, ∀ p ∈ c.lookedAt T f s,
    Past (fun l => c.AnyWay sources all l ∧ T.node? l = none) (c.root.join p)
  roots : ∀ T ∈ all, ∀ root ∈ sources,
    Past (fun l => c.AnyWay sources all l ∧ T.node? l = none) (c.root.join root)

/-- Records can be read back, and their digests tell the sources of a file apart. -/
structure Telling (c : Compiler) (F : SourceFile → Bytes → Bytes) (sources : List Path) (all : List FileTree) :
    Prop where
  fits : ∀ T ∈ all, ∀ f ∈ c.discover T sources, ∀ content, T.read (c.root.join (source f)) = .ok content →
    (c.cleanRecord f (F f) (c.names f T) content).Fits
  noCollision : ∀ T ∈ all, ∀ T' ∈ all, ∀ f ∈ c.discover T sources, f ∈ c.discover T' sources → ∀ content content',
    T.read (c.root.join (source f)) = .ok content → T'.read (c.root.join (source f)) = .ok content' →
      Digest.hash content = Digest.hash content' → content = content'

/-- A source tree takes the place of the ones before it, and what they were compiled to stays: their outputs and the
directories that lead there. -/
structure Laid (c : Compiler) (sources : List Path) (Ts : List FileTree) (T v u : FileTree) : Prop where
  proper : u.Proper
  entry : ∀ l, ¬ c.AnyOutput sources Ts l →
    u.node? l = T.node? l ∨ c.AnyWay sources Ts l ∧ T.node? l = none ∧ u.node? l = some .directory
  output : ∀ l, c.AnyOutput sources Ts l → u.node? l = v.node? l
  links : u.links = T.links

/-! ## Outputs of a source tree -/

/-- The outputs of a file are the ones that it has in a source tree. -/
def Clean (c : Compiler) (F : SourceFile → Bytes → Bytes) (T : FileTree) (f : SourceFile) (u : FileTree) : Prop :=
  ∃ content, T.read (c.root.join (source f)) = .ok content ∧
    u.node? (c.target f) = some (.file (cleanText f (F f) (c.names f T) content)) ∧
    u.node? (c.recordPlace f) = some (.file (c.cleanRecord f (F f) (c.names f T) content).encode)

theorem forall_outputs {P : Location → Prop} :
    (∀ l ∈ c.outputs f, P l) ↔ P (c.target f) ∧ P (c.recordPlace f) := by
  simp [outputs]

theorem Clean.congr (h : c.Clean F T f u) (hsame : ∀ l ∈ c.outputs f, u'.node? l = u.node? l) : c.Clean F T f u' := by
  obtain ⟨content, hread, htarget, hrecord⟩ := h
  rw [forall_outputs] at hsame
  exact ⟨content, hread, hsame.1.trans htarget, hsame.2.trans hrecord⟩

theorem Clean.file (h : c.Clean F T f u) (hl : l ∈ c.outputs f) : ∃ bytes, u.node? l = some (.file bytes) := by
  obtain ⟨content, -, htarget, hrecord⟩ := h
  exact forall_outputs (P := fun l => ∃ bytes, u.node? l = some (.file bytes)) |>.2 ⟨⟨_, htarget⟩, ⟨_, hrecord⟩⟩ l hl

theorem Clean.unique (h : c.Clean F T f u) (h' : c.Clean F T f w) (hl : l ∈ c.outputs f) : u.node? l = w.node? l := by
  obtain ⟨content, hread, htarget, hrecord⟩ := h
  obtain ⟨content', hread', htarget', hrecord'⟩ := h'
  obtain rfl : content = content' := Except.ok.inj (hread.symm.trans hread')
  exact forall_outputs (P := fun l => u.node? l = w.node? l) |>.2
    ⟨htarget.trans htarget'.symm, hrecord.trans hrecord'.symm⟩ l hl

/-- What becomes of a text depends on what its specifiers name. -/
theorem outcome_congr {names names' : String → Option String} {text : Bytes}
    (h : isScript (source f) = true → ∀ i ∈ Import.scan text, names i.specifier = names' i.specifier) :
    outcome f names text = outcome f names' text := by
  unfold outcome
  split
  · next hscript => rw [Import.retarget_eq_of_scan (h hscript)]
  · rfl

/-! ## One more source tree -/

/-- Of files that were compiled before, some were compiled again from a source tree. -/
structure Renewed (c : Compiler) (F : SourceFile → Bytes → Bytes) (sources : List Path) (Ts : List FileTree)
    (T : FileTree) (done : List SourceFile) (u : FileTree) : Prop where
  older : ∀ f, c.Found sources Ts f → f ∉ done → ∃ T' ∈ Ts, f ∈ c.discover T' sources ∧ c.Clean F T' f u
  newer : ∀ f ∈ done, f ∈ c.discover T sources ∧ c.Clean F T f u

/-- Over a source tree lie outputs of trees before it, and those of some of its own files. -/
structure Over (c : Compiler) (F : SourceFile → Bytes → Bytes) (sources : List Path) (all Ts : List FileTree)
    (T : FileTree) (done : List SourceFile) (u : FileTree) : Prop extends c.Renewed F sources Ts T done u where
  touched : Touched (fun l => c.AnyOutput sources Ts l ∨ ∃ f ∈ done, l ∈ c.outputs f) (c.AnyWay sources all) T u

theorem Renewed.file (h : c.Renewed F sources Ts T done u)
    (hl : c.AnyOutput sources Ts l ∨ ∃ f ∈ done, l ∈ c.outputs f) : ∃ bytes, u.node? l = some (.file bytes) := by
  have newer {f : SourceFile} (hf : f ∈ done) (hl : l ∈ c.outputs f) : ∃ bytes, u.node? l = some (.file bytes) :=
    (h.newer f hf).2.file hl
  rcases hl with ⟨f, hf, hl⟩ | ⟨f, hf, hl⟩
  · by_cases hdone : f ∈ done
    · exact newer hdone hl
    · obtain ⟨T', -, -, hclean⟩ := h.older f hf hdone
      exact hclean.file hl
  · exact newer hf hl

theorem Found.mono (hsub : ∀ T ∈ Ts, T ∈ all) (h : c.Found sources Ts f) : c.Found sources all f := by
  obtain ⟨T, hT, hf⟩ := h
  exact ⟨T, hsub T hT, hf⟩

section Next

variable (hc : c.Consistent F sources all) (hh : c.Hidden F sources all) (ht : c.Telling F sources all) (hT : T ∈ all)
  (hTs : ∀ T ∈ Ts, T ∈ all)

include hc hT in
theorem Consistent.alone (hl : c.AnyOutput sources all l) : T.Alone l := by
  apply (hc.links T hT).alone
  intro content
  rw [hc.empty T hT l hl]
  exact fun heq => nomatch heq

include hc hT in
theorem Consistent.orderly (hf : f ∈ c.discover T sources) : c.Orderly f T :=
  ⟨hc.links T hT, hc.alone hT ⟨f, ⟨T, hT, hf⟩, List.mem_cons_self⟩,
    hc.alone hT ⟨f, ⟨T, hT, hf⟩, List.mem_cons_of_mem _ List.mem_cons_self⟩⟩

include hT hTs in
/-- All outputs that lie over a source tree are outputs of one of the trees. -/
theorem Over.anyOutput (h : c.Over F sources all Ts T done u)
    (hl : c.AnyOutput sources Ts l ∨ ∃ f ∈ done, l ∈ c.outputs f) : c.AnyOutput sources all l := by
  rcases hl with ⟨f, hf, hl⟩ | ⟨f, hf, hl⟩
  · exact ⟨f, hf.mono hTs, hl⟩
  · exact ⟨f, ⟨T, hT, (h.newer f hf).1⟩, hl⟩

include hc hT hTs

theorem Over.orderly (h : c.Over F sources all Ts T done u) (hf : f ∈ c.discover T sources) : c.Orderly f u :=
  (hc.orderly hT hf).touched h.touched fun _ hl => hc.alone hT (h.anyOutput hT hTs hl)

theorem Over.read_source (h : c.Over F sources all Ts T done u) (hf : f ∈ c.discover T sources) :
    u.read (c.root.join (source f)) = T.read (c.root.join (source f)) := by
  refine read_source_congr (hc.proper T hT) hf h.touched fun hl => ?_
  obtain ⟨hroot, -, names, hne, hpath, content, hfile⟩ := (mem_discover (hc.proper T hT)).1 hf
  have hspelled : Spelled names := fun name hname => (hc.proper T hT).spelled hfile name (List.mem_append_right _ hname)
  apply hc.outside _ (h.anyOutput hT hTs hl) f.1 hroot
  rw [sourcePlace_eq hne hspelled hpath]
  exact List.prefix_append _ _

include ht in
/-- A file that counts as up to date is so: its record has the digest of its source, and so was made of it. -/
theorem Over.clean_of_cached (h : c.Over F sources all Ts T done u) (hf : f ∈ c.discover T sources)
    (hmade : c.compileFile f u = (u', .ok .cached)) : u' = u ∧ c.Clean F T f u := by
  obtain ⟨rfl, content, bytes, record, hread, hbytes, hdecode, hhash⟩ := compileFile_cached hmade
  refine ⟨rfl, ?_⟩
  rw [h.read_source hc hT hTs hf] at hread
  have hfound : c.Found sources all f := ⟨T, hT, hf⟩
  have hrecordMem : c.recordPlace f ∈ c.outputs f := List.mem_cons_of_mem _ List.mem_cons_self
  by_cases hdone : f ∈ done
  · exact (h.newer f hdone).2
  have holder : c.Found sources Ts f := by
    by_contra hnot
    -- nothing but this file puts a record there
    have hsame {g : SourceFile} (hg : c.Found sources all g) (hl : c.recordPlace f ∈ c.outputs g) : f = g :=
      hc.disjoint f g hfound hg ⟨_, hrecordMem, hl⟩
    have hnone := hc.empty T hT _ ⟨f, hfound, hrecordMem⟩
    have hO : ¬ (c.AnyOutput sources Ts (c.recordPlace f) ∨ ∃ g ∈ done, c.recordPlace f ∈ c.outputs g) := by
      rintro (⟨g, hg, hl⟩ | ⟨g, hg, hl⟩)
      · exact hnot (hsame (hg.mono hTs) hl ▸ hg)
      · exact hdone (hsame ⟨T, hT, (h.newer g hg).1⟩ hl ▸ hg)
    rcases h.touched.entry _ hO with heq | ⟨-, -, hdir⟩
    · rw [heq, hnone] at hbytes
      cases hbytes
    · rw [hdir] at hbytes
      cases hbytes
  obtain ⟨T', hT', hf', content', hread', htarget, hrecord⟩ := h.older f holder hdone
  obtain rfl : bytes = _ := Node.file.inj (Option.some.inj (hbytes.symm.trans hrecord))
  have hback := Record.decode_encode (ht.fits T' (hTs T' hT') f hf' content' hread') []
  rw [List.append_nil, hdecode] at hback
  rw [Except.ok.inj hback] at hhash
  obtain rfl : content' = content :=
    ht.noCollision T' (hTs T' hT') T hT f hf' hf content' content hread' hread (Digest.toHex_injective hhash)
  have houtcome : outcome f (c.names f T') (F f content') = outcome f (c.names f T) (F f content') :=
    outcome_congr fun hscript i hi =>
      hc.alike T hT f hf i.specifier (mem_mentioned hscript hread hi) T' (hTs T' hT')
  unfold cleanText at htarget
  unfold cleanRecord at hrecord
  rw [houtcome] at htarget hrecord
  exact ⟨content', hread, htarget, hrecord⟩

include hh in
/-- A file that is compiled becomes what it is in its source tree, whatever lies over this. -/
theorem Over.clean_of_fresh {imports : List Path} (h : c.Over F sources all Ts T done u)
    (hf : f ∈ c.discover T sources) (hmade : c.compileFile f u = (u', .ok (.fresh imports))) :
    Touched (· ∈ c.outputs f) (· ∈ c.way f) u u' ∧ c.Clean F T f u' := by
  have hfound : c.Found sources all f := ⟨T, hT, hf⟩
  have hF := hc.overwrites f hfound
  have ho := h.orderly hc hT hTs hf
  obtain ⟨cs, name, hfiled⟩ := exists_filed (hc.proper T hT) hf
  obtain ⟨content, w, hread, hw, -, rfl, htarget, hrecord⟩ := compileFile_fresh hF.contract ho hmade
  rw [h.read_source hc hT hTs hf] at hread
  have hfiles : ∀ l ∈ c.outputs f, u'.node? l ≠ some .directory := by
    rw [forall_outputs, htarget, hrecord]
    exact ⟨fun heq => (Node.noConfusion (Option.some.inj heq)), fun heq => (Node.noConfusion (Option.some.inj heq))⟩
  obtain ⟨w', hw', hbefore, hafter⟩ := compileFile_fresh_touched hF.tidy hfiled ho hfiles hmade
  obtain rfl : w = w' := Option.some.inj (hw.symm.trans hw')
  refine ⟨hbefore.trans hafter, ?_⟩
  have hlooked : Touched (fun l => (c.AnyOutput sources Ts l ∨ ∃ g ∈ done, l ∈ c.outputs g) ∨ l ∈ c.outputs f)
      (c.AnyWay sources all) T w := by
    have hfirst : Touched (fun l => (c.AnyOutput sources Ts l ∨ ∃ g ∈ done, l ∈ c.outputs g) ∨ l ∈ c.outputs f)
        (c.AnyWay sources all) T u := by
      refine h.touched.mono (fun _ => .inl) (fun _ hl => hl) ?_
      rintro l (hl | hl) hdir
      · exact h.touched.file l hl hdir
      · exact absurd (hafter.directory l (hbefore.directory l hdir)) (hfiles l hl)
    refine hfirst.trans (hbefore.mono (fun _ => .inr) (fun l hl => ⟨f, hfound, hl⟩) ?_)
    rintro l (hl | hl) hdir
    · obtain ⟨bytes, hbytes⟩ := h.file hl
      by_cases hout : l ∈ c.outputs f
      · exact hbefore.file l hout hdir
      · rw [hbefore.same hout fun _ => by rw [hbytes]; exact fun heq => nomatch heq] at hdir
        exact hdir
    · exact absurd (hafter.directory l hdir) (hfiles l hl)
  have houtcome : outcome f (c.names f w) (F f content) = outcome f (c.names f T) (F f content) := by
    refine outcome_congr fun hscript i hi => ?_
    have hmentioned := mem_mentioned hscript hread hi
    refine moduleOf_congr (hc.proper T hT) hlooked (fun p hp hl => ?_) fun p hp => hh.past T hT f hf _ hmentioned p hp
    apply hc.unseen T hT f hf _ hmentioned p hp
    rcases hl with hl | hl
    · exact h.anyOutput hT hTs hl
    · exact ⟨f, hfound, hl⟩
  rw [houtcome] at htarget hrecord
  exact ⟨content, hread, htarget, hrecord⟩

include hh ht in
/-- One more file of the source tree is compiled. -/
theorem Over.step {x : Compiled} (h : c.Over F sources all Ts T done u) (hf : f ∈ c.discover T sources)
    (hmade : c.compileFile f u = (u', .ok x)) : c.Over F sources all Ts T (f :: done) u' := by
  have hfound : c.Found sources all f := ⟨T, hT, hf⟩
  obtain ⟨htouched, hclean⟩ : Touched (· ∈ c.outputs f) (· ∈ c.way f) u u' ∧ c.Clean F T f u' := by
    cases x with
    | cached =>
      obtain ⟨rfl, hclean⟩ := h.clean_of_cached hc ht hT hTs hf hmade
      exact ⟨.refl .., hclean⟩
    | fresh imports => exact h.clean_of_fresh hc hh hT hTs hf hmade
  -- the outputs of other files were files before, and so no directory was made there
  have hother {g : SourceFile} {T' : FileTree} (hg : c.Found sources all g) (hne : g ≠ f) (hclean : c.Clean F T' g u) :
      c.Clean F T' g u' := by
    refine hclean.congr fun l hl => htouched.same (fun hl' => hne (hc.disjoint g f hg hfound ⟨l, hl, hl'⟩)) fun _ => ?_
    obtain ⟨bytes, hbytes⟩ := hclean.file hl
    rw [hbytes]
    exact fun heq => nomatch heq
  have hrenewed : c.Renewed F sources Ts T (f :: done) u' := by
    constructor
    · intro g hg hnot
      rw [List.mem_cons, not_or] at hnot
      obtain ⟨T', hT', hg', hclean⟩ := h.older g hg hnot.2
      exact ⟨T', hT', hg', hother (hg.mono hTs) hnot.1 hclean⟩
    · intro g hg
      by_cases heq : g = f
      · rw [heq]
        exact ⟨hf, hclean⟩
      · obtain ⟨hg', hclean⟩ := h.newer g ((List.mem_cons.1 hg).resolve_left heq)
        exact ⟨hg', hother ⟨T, hT, hg'⟩ heq hclean⟩
  have hfiles (l : Location) (hl : c.AnyOutput sources Ts l ∨ ∃ g ∈ f :: done, l ∈ c.outputs g) :
      u'.node? l ≠ some .directory := by
    obtain ⟨bytes, hbytes⟩ := hrenewed.file hl
    rw [hbytes]
    exact fun heq => nomatch heq
  refine ⟨hrenewed, (h.touched.mono ?_ (fun _ hl => hl) fun l hl hdir => ?_).trans
    (htouched.mono (fun l hl => .inr ⟨f, List.mem_cons_self, hl⟩) (fun l hl => ⟨f, hfound, hl⟩) fun l hl hdir => ?_)⟩
  · exact fun l hl => hl.imp_right fun ⟨g, hg, hl⟩ => ⟨g, List.mem_cons_of_mem _ hg, hl⟩
  · exact absurd (htouched.directory l hdir) (hfiles l hl)
  · exact absurd hdir (hfiles l hl)

include hh ht in
/-- Files of the source tree are compiled one after the other. -/
theorem Over.compiledAll (h : c.Over F sources all Ts T [] u) (hall : c.CompiledAll u files u')
    (hfiles : ∀ f ∈ files, f ∈ c.discover T sources) : c.Over F sources all Ts T files u' := by
  induction hall with
  | none => exact h
  | next _ hmade ih =>
    rw [List.forall_mem_cons] at hfiles
    exact (ih hfiles.2).step hc hh ht hT hTs hfiles.1 hmade

/-- What was compiled lies over the source tree that comes next. -/
theorem over_of_laid (hlaid : c.Laid sources Ts T v u)
    (hclean : ∀ f, c.Found sources Ts f → ∃ T' ∈ Ts, f ∈ c.discover T' sources ∧ c.Clean F T' f v) :
    c.Over F sources all Ts T [] u := by
  have hrenewed : c.Renewed F sources Ts T [] u := by
    refine ⟨fun f hf _ => ?_, fun f hf => absurd hf List.not_mem_nil⟩
    obtain ⟨T', hT', hf', hclean⟩ := hclean f hf
    exact ⟨T', hT', hf', hclean.congr fun l hl => hlaid.output l ⟨f, hf, hl⟩⟩
  refine ⟨hrenewed, fun l hl => ?_, fun l hdir => ?_, fun l hl hdir => ?_, hlaid.links⟩
  · refine (hlaid.entry l fun hl' => hl (.inl hl')).imp_right fun ⟨⟨f, hf, hway⟩, hmade⟩ =>
      ⟨⟨f, hf.mono hTs, hway⟩, hmade⟩
  · by_cases hl : c.AnyOutput sources Ts l
    · obtain ⟨f, hf, hl⟩ := hl
      rw [hc.empty T hT l ⟨f, hf.mono hTs, hl⟩] at hdir
      cases hdir
    · rcases hlaid.entry l hl with heq | ⟨-, -, hdir'⟩
      · exact heq.trans hdir
      · exact hdir'
  · obtain ⟨bytes, hbytes⟩ := hrenewed.file hl
    rw [hbytes] at hdir
    cases hdir

include hh in
/-- What lies over a source tree hides none of its files and adds none. -/
theorem Over.mem_discover_iff (h : c.Over F sources all Ts T done u) (hproper : u.Proper) :
    f ∈ c.discover u sources ↔ f ∈ c.discover T sources := by
  have hroot {root : Path} (hroot : root ∈ sources) : u.at? (c.root.join root) = T.at? (c.root.join root) := by
    refine at?_of_past (hc.proper T hT) h.touched (fun hl => ?_) (hh.roots T hT root hroot)
    exact hc.outside _ (h.anyOutput hT hTs hl) root hroot List.prefix_rfl
  have hfile {root : Path} (hroot : root ∈ sources) (names : Location) (content : Bytes) :
      u.node? (place (c.root.join root) ++ names) = some (.file content) ↔
        T.node? (place (c.root.join root) ++ names) = some (.file content) := by
    have hout := fun hl => hc.outside _ (h.anyOutput hT hTs hl) root hroot (List.prefix_append _ names)
    rcases h.touched.entry _ hout with heq | ⟨-, hnone, hdir⟩
    · rw [heq]
    · simp [hnone, hdir]
  rw [mem_discover hproper, mem_discover (hc.proper T hT)]
  refine and_congr_right fun hmem => ?_
  simp only [hroot hmem, hfile hmem]

include hh ht in
/-- When one more source tree was compiled, its files are what they are in it, and the others what they were. -/
theorem clean_next (hclean : ∀ f, c.Found sources Ts f → ∃ T' ∈ Ts, f ∈ c.discover T' sources ∧ c.Clean F T' f v)
    (hlaid : c.Laid sources Ts T v u) (hrun : c.Succeeds sources u u') :
    (∀ f ∈ c.discover T sources, c.Clean F T f u') ∧
      ∀ f, c.Found sources (T :: Ts) f → ∃ T' ∈ T :: Ts, f ∈ c.discover T' sources ∧ c.Clean F T' f u' := by
  obtain ⟨files, hperm, hall⟩ := hrun
  have hover := over_of_laid hc hT hTs hlaid hclean
  have hfiles (f : SourceFile) : f ∈ files ↔ f ∈ c.discover T sources :=
    hperm.mem_iff.trans (hover.mem_discover_iff hc hh hT hTs hlaid.proper)
  have hend := hover.compiledAll hc hh ht hT hTs hall fun f hf => (hfiles f).1 hf
  have hnow (f : SourceFile) (hf : f ∈ c.discover T sources) : c.Clean F T f u' := (hend.newer f ((hfiles f).2 hf)).2
  refine ⟨hnow, fun f ⟨T', hT', hf⟩ => ?_⟩
  by_cases hdone : f ∈ c.discover T sources
  · exact ⟨T, List.mem_cons_self, hdone, hnow f hdone⟩
  · rcases List.mem_cons.1 hT' with rfl | hT'
    · exact absurd hf hdone
    · obtain ⟨T', hT', hf', hclean⟩ := hend.older f ⟨T', hT', hf⟩ fun hmem => hdone ((hfiles f).1 hmem)
      exact ⟨T', List.mem_cons_of_mem _ hT', hf', hclean⟩

end Next

end Bundler.Compiler
