import Bundler.Proofs.Bundle.Missed
import Bundler.Proofs.Compile.Copying
import Bundler.Proofs.Compile.Renewed
import Bundler.Proofs.Compile.Spared
/-!
# What is compiled is found

A file is linked by the path of its source, seen from where compiled files go. Where all files of a tree were compiled,
the compiled file is there, with a record beside it that can be read and names the source as it is
(`Made.agrees`). So whatever specifiers a bundle is asked for, its search never fails for want of a file that was
compiled (`linker_agrees`). This asks of the transpilers that they leave the outputs of other files alone: after one
that does not, an output is missing though nothing has failed (`linker_disagrees`).
-/

namespace Bundler.Compiler

open FileTree
open Run (Reaches Returned)

variable {c : Compiler} {files done : List SourceFile} {sources : List Path} {f g : SourceFile} {t u v : FileTree}
  {l : Location} {report : CompileReport} {s : Run Progress Empty} {x : Compiled}

/-! ## Names -/

/-- Where compiled files are linked. -/
def buildRoot (c : Compiler) : Path := c.root.join c.outDir

theorem join_source (c : Compiler) (f : SourceFile) : c.buildRoot.join (source f) = c.root.join (c.destination f) := by
  rw [buildRoot, source, destination, Path.join_assoc, Path.join_assoc]

theorem destination_eq (c : Compiler) (f : SourceFile) : c.destination f = c.outDir.join (source f) :=
  Path.join_assoc _ _ _

/-- The record of a source, seen from where compiled files are linked, is the record of the compiled file. -/
theorem join_record (c : Compiler) (f : SourceFile) :
    c.buildRoot.join (Record.pathFor (source f)) = c.recordPath f := by
  rw [Record.join_pathFor, join_source, recordPath, Record.join_pathFor]

/-! ## Trees before they are compiled -/

/-- A tree that is to be compiled: the source roots are relative paths in normal form that do not climb, nothing is
where the compiled files go, and no two files share an output. -/
structure Buildable (c : Compiler) (sources : List Path) (t : FileTree) : Prop where
  proper : t.Proper
  links : t.WellLinked
  roots : ∀ root ∈ sources, root.normalize = root ∧ root.Inner
  empty : t.node? (place c.buildRoot) = none
  disjoint : (c.discover t sources).Pairwise fun f g => ¬ c.Meet f g

namespace Buildable

variable (h : c.Buildable sources t)
include h

theorem inner (hf : f ∈ c.discover t sources) : f.1.Inner := (h.roots f.1 ((mem_discover h.proper).1 hf).1).2

/-- The path of a source is in normal form. -/
theorem neat_source (hf : f ∈ c.discover t sources) : (source f).Neat := by
  obtain ⟨names, hne, hnames, hpath⟩ := exists_names h.proper hf
  have hsteps : ∀ step ∈ names.map Path.Component.name, step.IsStep := by
    intro step hstep
    obtain ⟨name, hname, rfl⟩ := List.mem_map.1 hstep
    exact ⟨(hnames name hname).2, (hnames name hname).1⟩
  have htext : (names.map Path.Component.name).map Path.Component.text = names := by
    rw [List.map_map]
    exact List.map_id names
  have hneat := (Path.neat_of_normalize (h.roots f.1 ((mem_discover h.proper).1 hf).1).1).join_steps (h.inner hf).1
    (by simpa using hne) hsteps
  rwa [Path.ofComponents_steps hsteps, htext, ← hpath] at hneat

/-- Outputs are made below the directory that compiled files go to. -/
theorem below (hf : f ∈ c.discover t sources) (hl : l ∈ c.outputs f) : place c.buildRoot <+: l := by
  obtain ⟨names, hne, hnames, hpath⟩ := exists_names h.proper hf
  have htarget : c.target f = place c.buildRoot ++ (place f.1 ++ names) := by
    rw [target_eq hne hnames hpath, ← Path.join_assoc, place_join_of_inner _ (h.inner hf), List.append_assoc]
    rfl
  rw [outputs, List.mem_cons, List.mem_singleton] at hl
  rcases hl with heq | heq <;> rw [heq]
  · exact htarget ▸ List.prefix_append _ _
  · rw [recordPlace_eq hne hnames hpath, htarget, recordAt_append (List.append_ne_nil_of_right_ne_nil _ hne)]
    exact List.prefix_append _ _

/-- No output is there. -/
theorem node?_output (hf : f ∈ c.discover t sources) (hl : l ∈ c.outputs f) : t.node? l = none := by
  have hempty := h.empty
  by_contra hsome
  obtain ⟨n, hn⟩ := Option.ne_none_iff_exists'.1 hsome
  by_cases heq : place c.buildRoot = l
  · rw [heq, hn] at hempty
    cases hempty
  · rw [h.proper.above hn (h.below hf hl) heq] at hempty
    cases hempty

theorem orderly : ∀ f ∈ c.discover t sources, c.Orderly f t := by
  intro f hf
  have alone {l : Location} (hl : l ∈ c.outputs f) : t.Alone l := by
    refine h.links.alone fun content hfile => ?_
    rw [h.node?_output hf hl] at hfile
    cases hfile
  exact ⟨h.links, alone (outputs_of_target _ rfl), alone (outputs_of_recordPlace _ rfl)⟩

theorem free : c.Free (c.discover t sources) where
  source f hf g hg hmem := by
    obtain ⟨content, hfile⟩ := node?_sourcePlace h.proper hg
    rw [h.node?_output hf hmem] at hfile
    cases hfile
  output f hf g hg hmeet := by
    by_contra hne
    have hsymm : Std.Symm fun f g => ¬ c.Meet f g := ⟨fun _ _ hnot hmeet => hnot (meet_symm hmeet)⟩
    exact h.disjoint.forall hf hg hne hmeet

theorem nodup : (c.discover t sources).Nodup := by
  refine h.disjoint.imp fun {f g} hnot heq => hnot ?_
  subst heq
  exact ⟨_, outputs_of_target _ rfl, outputs_of_target _ rfl⟩

end Buildable

/-! ## One file after the other -/

/-- Some of the files were compiled. The others have no record yet. -/
structure Building (c : Compiler) (t : FileTree) (files done : List SourceFile) (u : FileTree) : Prop where
  orderly : ∀ f ∈ files, c.Orderly f u
  source : ∀ f ∈ files, ∀ content, t.node? (c.sourcePlace f) = some (.file content) →
    u.node? (c.sourcePlace f) = some (.file content)
  made : ∀ f ∈ done, c.Made f u
  left : ∀ f ∈ files, f ∉ done → ∀ content, u.node? (c.recordPlace f) ≠ some (.file content)

/-- The next file is compiled. -/
theorem Building.next (h : c.Building t files done u) (hfree : c.Free files) (hdone : ∀ g ∈ done, g ∈ files)
    (hf : f ∈ files) (hnew : f ∉ done) (hT : c.Considerate files f) (hmade : c.compileFile f u = (v, .ok x)) :
    c.Building t files (f :: done) v := by
  cases x with
  | cached =>
    obtain ⟨-, -, bytes, -, -, hrecord, -⟩ := compileFile_cached hmade
    exact absurd hrecord (h.left f hf hnew bytes)
  | fresh imports =>
    obtain ⟨hspares, hfile⟩ := made_of_fresh hfree hf hT h.orderly hmade
    refine ⟨hspares.orderly h.orderly,
      fun g hg content hread => hspares.file hg (.inl rfl) (h.source g hg content hread),
      List.forall_mem_cons.2 ⟨hfile, fun g hg => (h.made g hg).spared hspares (hdone g hg) fun heq => hnew (heq ▸ hg)⟩,
      fun g hg hnot content => ?_⟩
    rw [List.mem_cons, not_or] at hnot
    exact hspares.not_file hg (.inr ⟨hnot.1, outputs_of_recordPlace _ rfl⟩) (h.left g hg hnot.2 content)

theorem building_of_compiledAll (h : c.Buildable sources t)
    (hT : ∀ f ∈ c.discover t sources, c.Considerate (c.discover t sources) f) (hall : c.CompiledAll t done u)
    (hnodup : done.Nodup) (hdone : ∀ f ∈ done, f ∈ c.discover t sources) :
    c.Building t (c.discover t sources) done u := by
  -- `Building` is carried along: as long as a file is left it has no record, so that it does not count as up to date
  induction hall with
  | none =>
    refine ⟨h.orderly, fun _ _ _ hread => hread, fun f hf => absurd hf List.not_mem_nil, fun f hf _ content hfile => ?_⟩
    rw [h.node?_output hf (outputs_of_recordPlace _ rfl)] at hfile
    cases hfile
  | next _ hmade ih =>
    rw [List.nodup_cons] at hnodup
    rw [List.forall_mem_cons] at hdone
    exact (ih hnodup.2 hdone.2).next h.free hdone.2 hdone.1 hnodup.1 (hT _ hdone.1) hmade

/-! ## What is linked -/

/-- What the linker finds of a source: a compiled file under the source's path, and beside it a record with the digest
of the source and the name of the compiled file. Imports are spelled in normal form, and so is the source. -/
structure Agrees (c : Compiler) (t v : FileTree) (f : SourceFile) : Prop where
  compiled : v.isFile (c.buildRoot.join (source f)) = true
  recorded : ∃ r content, Record.load v (c.buildRoot.join (Record.pathFor (source f))) = .ok (some r) ∧
    t.node? (c.sourcePlace f) = some (.file content) ∧ v.read (c.root.join (source f)) = .ok content ∧
    r.hash = (Digest.hash content).toHex ∧ r.filename = c.outDir.join (source f) ∧ ∀ i ∈ r.imports, i.Neat
  neat : (source f).Neat

/-- The length of every file is one of 64 bits, as all lengths in memory are. -/
def Sized (t : FileTree) : Prop := ∀ l content, t.node? l = some (.file content) → content.length < Cbor.wordCount

/-- A file that was made is found. -/
theorem Made.agrees (h : c.Made f v) (hneat : (source f).Neat) {content : Bytes}
    (hsource : t.node? (c.sourcePlace f) = some (.file content))
    (hsame : v.node? (c.sourcePlace f) = some (.file content))
    (hsize : Sized v) : c.Agrees t v f := by
  obtain ⟨⟨text, htext⟩, content', imports, hread, hrecord, himports⟩ := h
  obtain rfl : content' = content := Node.file.inj (Option.some.inj ((node?_of_read hread).symm.trans hsame))
  refine ⟨?_, ⟨⟨c.destination f, (Digest.hash content').toHex, imports⟩, content', ?_, hsource, hread, rfl,
    c.destination_eq f, himports⟩, hneat⟩
  · rw [join_source]
    exact isFile_of_read htext
  · have hback := Record.decode_encode (Record.fits_of_length (hsize _ _ (node?_of_read hrecord))) []
    rw [List.append_nil] at hback
    rw [join_record]
    exact Record.load_of_read hrecord hback

theorem Agrees.require (h : c.Agrees t v f) :
    ∃ r, Record.require v (c.buildRoot.join (Record.pathFor (source f))) = .ok r ∧ ∀ i ∈ r.imports, i.Neat := by
  obtain ⟨r, content, hload, -, -, -, -, hneat⟩ := h.recorded
  exact ⟨r, by rw [Record.require, hload], hneat⟩

/-- What a search that fails was looking for is none of the files that were compiled: an import without a compiled file
has another path, by its text, and unless a record lists it that belongs to none of them, by what it denotes; and so has
a path in normal form whose record cannot be used. -/
def Excused (c : Compiler) (files : List SourceFile) (v : FileTree) : LinkError → Prop
  | .missingImport i importer => ∀ f ∈ files, i ≠ source f ∧ ∀ g ∈ files, importer.Same (source g) → ¬ i.Same (source f)
  | .record e => ∃ p, Record.require v (c.buildRoot.join (Record.pathFor p)) = .error e ∧
    ∀ f ∈ files, p ≠ source f ∧ (p.Neat → ¬ p.Same (source f))
  | _ => True

theorem excused_of_misses {specifiers : List String} {e : LinkError} (h : ∀ f ∈ files, c.Agrees t v f)
    (hmiss : Bundle.Misses v c.buildRoot specifiers e) : c.Excused files v e := by
  have usable {f : SourceFile} {p : Path} {error : RecordError} (hf : f ∈ files)
      (hrecord : Record.require v (c.buildRoot.join (Record.pathFor p)) = .error error) : p ≠ source f := by
    rintro rfl
    obtain ⟨r, hr, -⟩ := (h f hf).require
    rw [hr] at hrecord
    cases hrecord
  have record {p : Path} {error : RecordError}
      (hrecord : Record.require v (c.buildRoot.join (Record.pathFor p)) = .error error) :
      c.Excused files v (.record error) :=
    ⟨p, hrecord, fun f hf => ⟨usable hf hrecord, fun hneat hsame =>
      usable hf hrecord (hneat.eq_of_same (h f hf).neat hsame)⟩⟩
  cases hmiss with
  | unresolved => trivial
  | module _ _ hrecord => exact record hrecord
  | imported _ _ _ hrecord => exact record hrecord
  | @missing importer i r listed mem compiled =>
    intro f hf
    have hne : i ≠ source f := by
      rintro rfl
      rw [(h f hf).compiled] at compiled
      cases compiled
    refine ⟨hne, fun g hg himporter hsame => hne ?_⟩
    -- the record of the importer is the one that was made of it
    obtain ⟨r', hr', hneat⟩ := (h g hg).require
    obtain rfl := Record.require_unique (h g hg).compiled himporter.symm rfl listed hr'
    exact (hneat i mem).eq_of_same (h f hf).neat hsame

/-- The compiler and the linker agree on names. Nothing is there yet of what is to be compiled, and where a transpiler
succeeds, it makes the compiled file and leaves all other files alone. Then after any run that answers with a report,
the linker finds each file under the path of its source, with a record that tells what it was made of, and never fails
for want of one of these files. -/
theorem linker_agrees (h : c.Buildable sources t)
    (hT : ∀ f ∈ c.discover t sources, c.Considerate (c.discover t sources) f) {cancelled : Bool}
    (hrun : Reaches (c.graph (c.discover t sources)) (c.task (c.discover t sources)) (startRun cancelled t) s)
    (hreturned : s.Returned) (hanswer : conclude s = .ok report) (hsize : Sized s.world.tree) :
    (∀ f ∈ c.discover t sources, c.Agrees t s.world.tree f) ∧
      ∀ specifiers e, Bundle.find s.world.tree c.buildRoot specifiers = .error e →
        c.Excused (c.discover t sources) s.world.tree e := by
  obtain ⟨done, hperm, hall⟩ := succeeds_of_run hrun hreturned hanswer
  have hbuilt := building_of_compiledAll h hT hall (hperm.nodup_iff.2 h.nodup) fun f hf => hperm.mem_iff.1 hf
  have hagrees (f : SourceFile) (hf : f ∈ c.discover t sources) : c.Agrees t s.world.tree f := by
    obtain ⟨content, hfile⟩ := node?_sourcePlace h.proper hf
    exact (hbuilt.made f (hperm.mem_iff.2 hf)).agrees (h.neat_source hf) hfile (hbuilt.source f hf content hfile) hsize
  exact ⟨hagrees, fun specifiers e hfind => excused_of_misses hagrees (Bundle.misses_of_find hfind)⟩

/-! ## Sources that are copied -/

/-- Copying leaves other files alone. -/
theorem considerate_of_copy (hfree : c.Free files) (hf : f ∈ files) (hget : c.transpilers.get (source f) = .copy) :
    c.Considerate files f := by
  have hne : c.sourcePlace f ≠ c.target f := fun heq => hfree.source f hf f hf (heq ▸ outputs_of_target _ rfl)
  exact considerate_of_tidy hfree hf (tidy_of_copy hget hne) fun t u content ho hread h =>
    ⟨content, node?_of_transpile hget hne ho hread h⟩

/-- A script that imports another one and one outside the source root. -/
def straying : FileTree :=
  ⟨[(["w"], .directory), (["w", "lib"], .directory), (["w", "lib", "x.js"], .file []), (["w", "src"], .directory),
    (["w", "src", "a.js"], .file (Utf8.encode "require('./b');require('../lib/x')")), (["w", "src", "b.js"], .file [])],
    [], []⟩

/-- The script and the one that it imports. -/
def strayingFiles : List SourceFile := [(⟨"src"⟩, ⟨"a.js"⟩), (⟨"src"⟩, ⟨"b.js"⟩)]

/-- Takes away the compiled file of the one script, if it is there, and then makes the one that it is asked for. -/
def eraser : Transpiler := .custom fun _ dst t =>
  let rest := (t.removeFile ⟨"/w/build/src/a.js"⟩).toOption.getD t
  match rest.write dst [] with
  | .error _ => (rest, .failed "unwritable")
  | .ok made => (made, .done)

/-- Compiles with it. -/
def careless : Compiler := { copier with transpilers := ⟨[], eraser⟩ }

/-- How long the file of an entry is. -/
def fileLength : Node → Nat
  | .directory => 0
  | .file content => content.length

theorem sized_of_entries (h : ∀ entry ∈ t.entries, fileLength entry.2 < Cbor.wordCount) : Sized t := by
  intro l content hfile
  unfold node? at hfile
  split at hfile
  · cases hfile
  · obtain ⟨before, behind, hentries, -⟩ := List.lookup_eq_some_iff.1 hfile
    exact h (l, .file content) (hentries ▸ List.mem_append_right before List.mem_cons_self)

/-- The import without a compiled file that a search fails for, and what imports it. -/
def missing? : Except LinkError Bundle → Option (Path × Path)
  | .error (.missingImport i importer) => some (i, importer)
  | _ => none

theorem eq_of_missing? {y : Except LinkError Bundle} {i importer : Path} (h : missing? y = some (i, importer)) :
    y = .error (.missingImport i importer) := by
  unfold missing? at h
  split at h
  · cases h
    rfl
  · cases h

/-- The run over some files that makes its choices itself. -/
def ownRun (c : Compiler) (files : List SourceFile) (t : FileTree) : Run Progress Empty :=
  Run.solve (c.graph files) (c.task files) (fun _ => false) false ⟨t, [], ⟨0, 0⟩⟩

theorem compileTree_eq (h : c.discover t sources = files) :
    c.compileTree sources false t = ((c.ownRun files t).world.tree, conclude (c.ownRun files t)) := by
  subst h
  rfl

theorem listed_straying : copier.Listed straying [⟨"src"⟩] strayingFiles := by decide

theorem empty_straying : straying.node? (place copier.buildRoot) = none := by decide

theorem apart_strayingFiles : strayingFiles.Pairwise fun f g => ¬ copier.Meet f g := by decide

theorem ownRun_straying :
    (conclude (copier.ownRun strayingFiles straying)).toOption = some ⟨2, 0⟩ ∧
      (∀ entry ∈ (copier.ownRun strayingFiles straying).world.tree.entries, fileLength entry.2 < Cbor.wordCount) ∧
      missing? (Bundle.find (copier.ownRun strayingFiles straying).world.tree copier.buildRoot ["./src/a.js"]) =
        some (⟨"lib/x.js"⟩, ⟨"src/a.js"⟩) := by decide +kernel

theorem ownRun_careless :
    (conclude (careless.ownRun strayingFiles straying)).toOption = some ⟨2, 0⟩ ∧
      (careless.ownRun strayingFiles straying).world.tree.isFile
        (careless.buildRoot.join (source (⟨"src"⟩, ⟨"a.js"⟩))) = false := by decide +kernel

theorem discover_straying : copier.discover straying [⟨"src"⟩] = strayingFiles :=
  discover_of_listed listed_straying

/-- How a file is compiled does not matter. -/
theorem buildable_straying (transpilers : Transpilers) :
    ({ copier with transpilers } : Compiler).Buildable [⟨"src"⟩] straying where
  proper := by decide
  links group hgroup := absurd hgroup List.not_mem_nil
  roots := by decide
  empty := empty_straying
  disjoint := discover_straying ▸ apart_strayingFiles

/-- The module that is imported from outside the source root was not compiled. The search for the other scripts fails
for it, and for none of them. -/
theorem linker_agrees_straying :
    ∃ v, copier.compileTree [⟨"src"⟩] false straying = (v, .ok ⟨2, 0⟩) ∧
      (∀ f ∈ strayingFiles, copier.Agrees straying v f) ∧
      Bundle.find v copier.buildRoot ["./src/a.js"] = .error (.missingImport ⟨"lib/x.js"⟩ ⟨"src/a.js"⟩) ∧
      copier.Excused strayingFiles v (.missingImport ⟨"lib/x.js"⟩ ⟨"src/a.js"⟩) := by
  obtain ⟨hanswer, hlength, hmissing⟩ := ownRun_straying
  have hanswer := eq_of_toOption hanswer
  have hfind := eq_of_missing? hmissing
  have hbuild := buildable_straying copier.transpilers
  have hcopy : ∀ f ∈ copier.discover straying [⟨"src"⟩], copier.Considerate (copier.discover straying [⟨"src"⟩]) f :=
    fun f hf => considerate_of_copy hbuild.free hf (get_default _)
  have hrun : Reaches (copier.graph (copier.discover straying [⟨"src"⟩]))
      (copier.task (copier.discover straying [⟨"src"⟩])) (startRun false straying)
      (copier.ownRun strayingFiles straying) := discover_straying ▸ Run.reaches_solve _ _ _ _ _
  obtain ⟨hagrees, hexcused⟩ := linker_agrees hbuild hcopy hrun (Run.solve_returns _ _ _ _ _) hanswer
    (sized_of_entries hlength)
  rw [discover_straying] at hagrees hexcused
  exact ⟨_, (compileTree_eq discover_straying).trans (congrArg _ hanswer), hagrees, hfind, hexcused _ _ hfind⟩

theorem careless_transpile (f : SourceFile) (t : FileTree) :
    careless.transpile f t = eraser.run careless.programs careless.root (careless.root.join (source f))
      (careless.root.join (careless.destination f)) t := by
  have hget : careless.transpilers.get (source f) = eraser := by
    unfold Transpilers.get
    cases (source f).extension? <;> rfl
  rw [transpile, hget]

/-- Wherever it succeeds, it has made the compiled file. -/
theorem makes_careless (h : careless.transpile f t = (u, .ok ())) : u.node? (careless.target f) = some (.file []) := by
  rw [careless_transpile, eraser, Transpiler.run] at h
  dsimp only at h
  split at h
  · next hmade =>
    split at hmade
    · cases hmade
    · next hwrite =>
      cases hmade
      cases h
      exact node?_write hwrite
  · cases h
  · cases h

/-- A transpiler that takes away an output of another file: all goes well, and the linker does not find the file. -/
theorem linker_disagrees :
    careless.Buildable [⟨"src"⟩] straying ∧
      (∀ root ∈ [(⟨"src"⟩ : Path)], ¬ place (careless.root.join root) <+: place careless.buildRoot) ∧
      (∀ f t u, careless.transpile f t = (u, .ok ()) → ∃ text, u.node? (careless.target f) = some (.file text)) ∧
      ∃ v, careless.compileTree [⟨"src"⟩] false straying = (v, .ok ⟨2, 0⟩) ∧
        ∃ f ∈ careless.discover straying [⟨"src"⟩], v.isFile (careless.buildRoot.join (source f)) = false := by
  obtain ⟨hanswer, hgone⟩ := ownRun_careless
  have hanswer := eq_of_toOption hanswer
  have hfound : careless.discover straying [⟨"src"⟩] = strayingFiles := discover_straying
  have hrun := compileTree_eq hfound
  rw [hanswer] at hrun
  rw [hfound]
  exact ⟨buildable_straying ⟨[], eraser⟩, by decide, fun f t u h => ⟨[], makes_careless h⟩, _, hrun,
    (⟨"src"⟩, ⟨"a.js"⟩), List.mem_cons_self, hgone⟩

end Bundler.Compiler
