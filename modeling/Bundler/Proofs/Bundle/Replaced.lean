import Bundler.Proofs.Bundle.Prune
import Bundler.Proofs.Bundle.Rewritten
/-!
# Writing chunks and pruning names

Writing chunks changes their files, under all the names that these have, and nothing else; then each file holds its
whole chunk, also when the chunks are written beside each other (`Ends.replaced`), and a manifest that is saved
beside them leaves it so (`complete_of_save`). It succeeds where each file could be written by itself (`exists_write`).
Pruning takes away the names it is given and nothing else (`removed_removeAll`). Other files of the directory may have
several names; only a chunk's file may not be another chunk's as well (`Distinct`).
-/

namespace Bundler

open FileTree

variable {root dir : Path} {c : Chunk} {chunks order : List Chunk} {t u v : FileTree} {l : Location} {name : String}
  {names : List String}

theorem Manifest.write_of_save {m : Manifest} {path : Path} (h : m.save t path = .ok u) :
    t.write path (Utf8.encode m.toJson) = .ok u := by
  unfold save at h
  split at h
  · cases h
  next hwrite =>
  cases h
  exact hwrite

namespace Bundle

/-! ## Writing -/

/-- What is changed where chunks are written: their files, under whatever name. -/
def Affected (dir : Path) (chunks : List Chunk) (t : FileTree) (l : Location) : Prop :=
  ∃ c ∈ chunks, l ∈ t.names (place (dir.join ⟨c.fileName⟩))

/-- The file of a chunk holds the whole chunk. Its modules are as they can be read in a tree, but for modules
that the writing changes itself. -/
def Complete (root dir : Path) (chunks : List Chunk) (t u : FileTree) (c : Chunk) : Prop :=
  ∃ text, u.read (dir.join ⟨c.fileName⟩) = .ok (chunkContent c text) ∧
    ∀ m ∈ c.files, ¬ Affected dir chunks t (place (root.join m.1)) → t.read (root.join m.1) = .ok (text m.1)

/-- Chunks of one name are written alike, and chunks of two names are two files. -/
structure Distinct (dir : Path) (chunks : List Chunk) (t : FileTree) : Prop where
  alike : ∀ c ∈ chunks, ∀ c' ∈ chunks, c.fileName = c'.fileName →
    c.files = c'.files ∧ c.entrypoint.map (·.module) = c'.entrypoint.map (·.module) ∧ c.loads = c'.loads
  single : ∀ c ∈ chunks, ∀ c' ∈ chunks,
    place (dir.join ⟨c.fileName⟩) ∈ t.names (place (dir.join ⟨c'.fileName⟩)) → c.fileName = c'.fileName

/-- The chunks were written. -/
structure Replaced (root dir : Path) (chunks : List Chunk) (t u : FileTree) : Prop where
  well : u.WellLinked
  same : SameBut (Affected dir chunks t) t u
  complete : ∀ c ∈ chunks, Complete root dir chunks t u c

theorem affected_of_mem (hc : c ∈ chunks) (h : u.links = t.links) (l : Location)
    (hl : l ∈ u.names (place (dir.join ⟨c.fileName⟩))) : Affected dir chunks t l := ⟨c, hc, names_congr h _ ▸ hl⟩

/-- Chunks of one name are whole together. -/
theorem Complete.of_name (h : Complete root dir chunks t u c) (hd : Distinct dir chunks t) (hc : c ∈ chunks)
    {c' : Chunk} (hc' : c' ∈ chunks) (heq : c'.fileName = c.fileName) : Complete root dir chunks t u c' := by
  obtain ⟨hfiles, hstart, hloads⟩ := hd.alike c' hc' c hc heq
  obtain ⟨text, htext, hmodules⟩ := h
  refine ⟨text, ?_, fun m hm => hmodules m (hfiles ▸ hm)⟩
  rw [heq, htext, Except.ok.injEq, chunkContent_eq_iff hstart.symm hloads.symm, hfiles]

/-- A chunk stays whole when the file of another one is written. -/
theorem Complete.of_other {c' : Chunk} {content : Bytes} (h : Complete root dir chunks t u c')
    (hd : Distinct dir chunks t) (hw : u.WellLinked) (hlinks : u.links = t.links) (hc' : c' ∈ chunks) (hc : c ∈ chunks)
    (hne : c'.fileName ≠ c.fileName) (hwrite : u.write (dir.join ⟨c.fileName⟩) content = .ok v) :
    Complete root dir chunks t v c' := by
  obtain ⟨text, htext, hmodules⟩ := h
  refine ⟨text, ?_, hmodules⟩
  rw [(sameBut_names hw hwrite).read_iff fun hl => hne (hd.single c' hc' c hc (names_congr hlinks _ ▸ hl))]
  exact htext

theorem confined_affected (hw : t.WellLinked) : Confined (Affected dir chunks t) dir chunks t := by
  intro c hc u v content hu hwrite
  exact (sameBut_names (hu.wellLinked hw) hwrite).mono (affected_of_mem hc hu.links)

/-- Chunks are being written, without an error so far. Of the chunks, some wait and some are open. The file of any other
is whole, unless one of its name is open. -/
structure Underway (root dir : Path) (chunks : List Chunk) (t : FileTree) (s : Press) : Prop where
  sound : s.Sound (Affected dir chunks t) root dir chunks t
  whole : s.errors = [] → ∀ c ∈ chunks, c ∈ s.waiting ∨ (∃ d ∈ s.drafts, d.chunk.fileName = c.fileName) ∨
    Complete root dir chunks t s.tree c

/-- A chunk is whole when its file was closed and all of its modules were read. -/
theorem complete_of_gathered {d : Draft} {sources : List (Path × Bytes)}
    (h : d.Gathered (Affected dir chunks t) root t sources) (hnodup : (d.chunk.files.map Prod.fst).Nodup)
    (hread : d.unread = []) (hfailure : d.failure = none) (hfile : u.read (d.path dir) = .ok d.bytes) :
    Complete root dir chunks t u d.chunk := by
  have hpaths := h.going hfailure
  rw [hread, List.append_nil] at hpaths
  obtain ⟨text, htext⟩ := Script.exists_text (hpaths ▸ hnodup)
  refine ⟨text, ?_, fun m hm hnot => ?_⟩
  · rw [chunkContent, ← hpaths, ← Script.wrapped_eq_body htext, ← h.text]
    rwa [Draft.bytes, hfailure] at hfile
  · have hmem : m.1 ∈ sources.map Prod.fst := hpaths ▸ List.mem_map_of_mem hm
    obtain ⟨source, hsource, heq⟩ := List.mem_map.1 hmem
    rw [← heq, htext source hsource]
    exact h.kept source hsource (heq ▸ hnot)

namespace Underway

variable {s s' : Press} (hw : t.WellLinked) (hd : Distinct dir chunks t)
include hw hd

/-- A chunk that is whole stays so when a file of another name is written. -/
theorem complete_of_write {c' : Chunk} {content : Bytes} (h : Underway root dir chunks t s) (hc : c ∈ chunks)
    (hwrite : s.tree.write (dir.join ⟨c.fileName⟩) content = .ok u) (hc' : c' ∈ chunks)
    (hne : c.fileName ≠ c'.fileName) (hwhole : Complete root dir chunks t s.tree c') :
    Complete root dir chunks t u c' :=
  hwhole.of_other hd (h.sound.same.wellLinked hw) h.sound.same.links hc' hc (Ne.symm hne) hwrite

theorem step (hnodup : ∀ c ∈ chunks, (c.files.map Prod.fst).Nodup) (h : Underway root dir chunks t s)
    (hstep : Press.Step root dir s s') : Underway root dir chunks t s' := by
  refine ⟨h.sound.step (confined_affected hw) hstep, fun hnone c' hc' => ?_⟩
  cases hstep with
  | @opened c rest u turn empties =>
    by_cases heq : c.fileName = c'.fileName
    · exact .inr (.inl ⟨.new c, List.mem_append_right _ List.mem_cons_self, heq⟩)
    have hc := (h.sound.waits_cons turn).1
    rcases h.whole hnone c' hc' with hwaits | ⟨d, hopen, hname⟩ | hwhole
    · rcases List.mem_cons.1 (turn.mem_iff.1 hwaits) with rfl | hrest
      · exact absurd rfl heq
      · exact .inl hrest
    · exact .inr (.inl ⟨d, List.mem_append_left _ hopen, hname⟩)
    · exact .inr (.inr (h.complete_of_write hw hd hc empties hc' heq hwhole))
  | refused turn refuses => exact absurd hnone (List.append_ne_nil_of_right_ne_nil _ (List.cons_ne_nil _ _))
  | skipped turn failed => exact absurd hnone failed
  | read turn reads =>
    refine (h.whole hnone c' hc').imp_right fun hbegun => hbegun.imp_left fun ⟨d, hopen, hname⟩ => ?_
    obtain ⟨d', hd', hchunk⟩ := Draft.exists_open_of_read turn reads hopen
    exact ⟨d', hd', by rwa [hchunk]⟩
  | @flushed d part u turn early writes =>
    by_cases heq : d.chunk.fileName = c'.fileName
    · exact .inr (.inl ⟨d, turn, heq⟩)
    · exact (h.whole hnone c' hc').imp_right fun hbegun => hbegun.imp_right fun hwhole =>
        h.complete_of_write hw hd (h.sound.drafts d turn).1 writes hc' heq hwhole
  | @closed d rest u turn done writes =>
    obtain ⟨hbefore, hfailure⟩ := List.append_eq_nil_iff.1 hnone
    rw [Option.toList_eq_nil_iff] at hfailure
    obtain ⟨⟨hc, -, sources, hgathered⟩, -⟩ := h.sound.drafts_cons turn
    have hown : Complete root dir chunks t u d.chunk :=
      complete_of_gathered hgathered (hnodup _ hc) done hfailure (read_of_write (h.sound.same.wellLinked hw) writes)
    by_cases heq : d.chunk.fileName = c'.fileName
    · exact .inr (.inr (hown.of_name hd hc hc' heq.symm))
    rcases h.whole hbefore c' hc' with hwaits | ⟨open', hopen, hname⟩ | hwhole
    · exact .inl hwaits
    · rcases List.mem_cons.1 (turn.mem_iff.1 hopen) with rfl | hrest
      · exact absurd hname heq
      · exact .inr (.inl ⟨open', hrest, hname⟩)
    · exact .inr (.inr (h.complete_of_write hw hd hc writes hc' heq hwhole))
  | stuck turn done refuses => exact absurd hnone (List.append_ne_nil_of_right_ne_nil _ (List.cons_ne_nil _ _))

end Underway

/-- When all chunks were written beside each other, each file holds its whole chunk, and nothing else is changed. -/
theorem Ends.replaced (hw : t.WellLinked) (hd : Distinct dir chunks t)
    (hnodup : ∀ c ∈ chunks, (c.files.map Prod.fst).Nodup) (h : Ends root dir chunks t u []) :
    Replaced root dir chunks t u := by
  have hstart : Underway root dir chunks t (.start chunks t) := ⟨.start _ root dir chunks t, fun _ _ hc => .inl hc⟩
  have hend := h.induct (fun _ _ h hstep => h.step hw hd hnodup hstep) hstart
  refine ⟨hend.sound.same.wellLinked hw, hend.sound.same, fun c hc => ?_⟩
  rcases hend.whole rfl c hc with hwaits | ⟨_, hopen, -⟩ | hwhole
  · exact absurd hwaits List.not_mem_nil
  · exact absurd hopen List.not_mem_nil
  · exact hwhole

/-- A bundle is written where its directory is there, its files can be written and its modules can be read. -/
theorem exists_write (hopen : ∀ c ∈ chunks, ∃ v, t.write (dir.join ⟨c.fileName⟩) [] = .ok v)
    (hread : ∀ c ∈ chunks, ∀ m ∈ c.files, ∃ source, t.read (root.join m.1) = .ok source) (hw : t.WellLinked)
    (hmake : t.makeDirectories dir = (t, .ok ())) (hmanifest : ∃ v, t.write (dir.join Manifest.fileName) [] = .ok v) :
    ∃ u, write root dir chunks t = (u, .ok (Manifest.ofChunks chunks)) := by
  obtain ⟨v, hwrites, hsame⟩ := exists_writeChunks (confined_affected hw) hopen hread
  obtain ⟨_, hfirst⟩ := hmanifest
  obtain ⟨u, hsave⟩ := hsame.exists_write hfirst (Utf8.encode (Manifest.ofChunks chunks).toJson)
  refine ⟨u, write_of_parts hmake hwrites ?_⟩
  rw [Manifest.save, hsave]

/-! ## Making the directory and saving the manifest -/

section Saved

variable {made written saved : FileTree} {bytes : Bytes}

theorem Distinct.of_links (h : Distinct dir chunks t) (hlinks : made.links = t.links) : Distinct dir chunks made where
  alike := h.alike
  single c hc c' hc' hmem := h.single c hc c' hc' (names_congr hlinks _ ▸ hmem)

theorem grows_of_makeDirectories (hw : t.WellLinked) (h : t.makeDirectories dir = (made, .ok ())) : Grows t made := by
  have hgrows := grows_ensureAll hw (ancestry dir.components.length dir)
  rwa [← makeDirectories, h] at hgrows

/-- The file of a chunk holds the whole chunk also when the manifest was saved, if that is another file. The modules
are as they could be read before the directory was made. -/
theorem complete_of_save (hw : t.WellLinked) (hd : Distinct dir chunks t) (hc : c ∈ chunks)
    (hmanifest : place (dir.join ⟨c.fileName⟩) ∉ t.names (place (dir.join Manifest.fileName)))
    (hrecords : ∀ m ∈ c.files, ∃ bytes, t.read (root.join (Record.pathFor m.1)) = .ok bytes)
    (hnodup : ∀ c ∈ chunks, (c.files.map Prod.fst).Nodup) (hmake : t.makeDirectories dir = (made, .ok ()))
    (hends : Ends root dir chunks made written [])
    (hsave : written.write (dir.join Manifest.fileName) bytes = .ok saved) : Complete root dir chunks t saved c := by
  have hgrows := grows_of_makeDirectories hw hmake
  have hreplaced := hends.replaced (hgrows.wellLinked hw) (hd.of_links hgrows.links) hnodup
  have hsame := sameBut_names hreplaced.well hsave
  obtain ⟨text, htext, hmodules⟩ := hreplaced.complete c hc
  refine ⟨text, ?_, fun m hm haffected => ?_⟩
  · rw [hsame.read_iff, htext]
    rwa [names_congr hreplaced.same.links, names_congr hgrows.links]
  · -- the module lies beside its record, which was read before a directory was made
    obtain ⟨bytes, hrecord⟩ := hrecords m hm
    rw [Record.join_pathFor] at hrecord
    refine read_of_beside hgrows (by decide) (by decide) hrecord (hmodules m hm ?_)
    rintro ⟨c', hc', hmem⟩
    rw [names_congr hgrows.links] at hmem
    exact haffected ⟨c', hc', hmem⟩

end Saved

/-- What the writes of a bundle can lead to: its directory is made, its chunks are written beside each other, and when
all of them were written the manifest is saved. -/
def Publishes (root dir : Path) (chunks : List Chunk) (t u : FileTree) : Prop :=
  ∃ made written, t.makeDirectories dir = (made, .ok ()) ∧ Ends root dir chunks made written [] ∧
    (Manifest.ofChunks chunks).save written (dir.join Manifest.fileName) = .ok u

/-- To write a bundle without choices is one of the ways to publish it. -/
theorem publishes_of_write {m : Manifest} (h : write root dir chunks t = (u, .ok m)) :
    m = Manifest.ofChunks chunks ∧ Publishes root dir chunks t u := by
  obtain ⟨rfl, made, written, hmake, hwrite, hsave⟩ := parts_of_write h
  exact ⟨rfl, made, written, hmake, ends_of_writeChunks_ok hwrite, hsave⟩

/-- How one chunk is written by itself: its file is emptied under all of its names before the modules are read, and the
manifest comes last. -/
theorem parts_of_write_singleton {m : Manifest} (hw : t.WellLinked) (h : write root dir [c] t = (u, .ok m)) :
    ∃ (ready full : FileTree) (text : Path → Bytes),
      (ready.WellLinked ∧ ready.links = t.links) ∧ (full.WellLinked ∧ full.links = t.links) ∧
      (∀ l ∈ t.names (place (dir.join ⟨c.fileName⟩)), ready.node? l = some (.file [])) ∧
      (∀ m ∈ c.files, ready.read (root.join m.1) = .ok (text m.1)) ∧
      ready.write (dir.join ⟨c.fileName⟩) (chunkContent c text) = .ok full ∧
      full.write (dir.join Manifest.fileName) (Utf8.encode m.toJson) = .ok u := by
  obtain ⟨-, made, written, hmake, hwrite, hsave⟩ := parts_of_write h
  have hgrows := grows_of_makeDirectories hw hmake
  have hmade := hgrows.wellLinked hw
  obtain ⟨ready, hempty, hread, hfill⟩ := writeChunks_singleton_iff.1 hwrite
  have hready := wellLinked_write hmade hempty
  have hlinks : ready.links = t.links := (links_write hempty).trans hgrows.links
  refine ⟨ready, written, _, ⟨hready, hlinks⟩, ⟨wellLinked_write hready hfill, (links_write hfill).trans hlinks⟩,
    fun l hl => ?_, hread, hfill, Manifest.write_of_save hsave⟩
  exact node?_write_of_mem_names hmade hempty (names_congr hgrows.links _ ▸ hl)

/-- Writing chunks puts a chunk into a file of its own, and changes none of its modules. -/
structure Clear (root dir : Path) (chunks : List Chunk) (t : FileTree) (c : Chunk) : Prop where
  well : t.WellLinked
  distinct : Distinct dir chunks t
  manifest : place (dir.join ⟨c.fileName⟩) ∉ t.names (place (dir.join Manifest.fileName))
  modules : ∀ m ∈ c.files, ¬ Affected dir chunks t (place (root.join m.1))

/-- A chunk has a file of its own where the directory has no file with other names and no chunk is named like a
module. -/
theorem clear_of_single (hw : t.WellLinked) (hsingle : ∀ l, place dir <+: l → t.Alone l)
    (halike : ∀ c ∈ chunks, ∀ c' ∈ chunks, c.fileName = c'.fileName →
      c.files = c'.files ∧ c.entrypoint.map (·.module) = c'.entrypoint.map (·.module) ∧ c.loads = c'.loads)
    (hmodules : ∀ m ∈ c.files, ∀ c' ∈ chunks, place (dir.join ⟨c'.fileName⟩) ≠ place (root.join m.1))
    (hc : c ∈ chunks) : Clear root dir chunks t c := by
  have hnames {l : Location} (hl : place dir <+: l) : t.names l = [l] := names_of_alone (hsingle l hl)
  have hinside (name : Path) (hname : IsName name.text) (hslash : '/' ∉ name.text.toList) :
      place dir <+: place (dir.join name) := by
    rw [show name = ⟨name.text⟩ from rfl, place_join_name dir hname hslash]
    exact List.prefix_append _ _
  have hchunk (c : Chunk) : place dir <+: place (dir.join ⟨c.fileName⟩) :=
    hinside _ c.isName_fileName c.slash_notMem_fileName
  refine ⟨hw, ⟨halike, fun c _ c' _ hmem => ?_⟩, fun hmem => ?_, fun m hm => ?_⟩
  · rw [hnames (hchunk c'), List.mem_singleton, Chunk.place_fileName, Chunk.place_fileName] at hmem
    exact List.singleton_inj.1 (List.append_cancel_left hmem)
  · rw [hnames (hinside _ (isName_of_length (by decide)) (by decide)), List.mem_singleton] at hmem
    exact not_written_manifest ⟨c, hc, hmem⟩
  · rintro ⟨c', hc', hmem⟩
    rw [hnames (hchunk c'), List.mem_singleton] at hmem
    exact hmodules m hm c' hc' hmem.symm

/-- What a chunk's file holds when the bundle was written is made of the modules as they were before. -/
theorem Clear.read_of_publishes (h : Clear root dir chunks t c) (hc : c ∈ chunks)
    (hrecords : ∀ m ∈ c.files, ∃ bytes, t.read (root.join (Record.pathFor m.1)) = .ok bytes)
    (hnodup : ∀ c ∈ chunks, (c.files.map Prod.fst).Nodup) (hpublishes : Publishes root dir chunks t u) :
    (∀ m ∈ c.files, t.read (root.join m.1) = .ok (Script.compiledText t root m.1)) ∧
      u.read (dir.join ⟨c.fileName⟩) = .ok (chunkContent c (Script.compiledText t root)) := by
  obtain ⟨made, written, hmake, hends, hsave⟩ := hpublishes
  have hsave := Manifest.write_of_save hsave
  obtain ⟨text, htext, hmodules⟩ := complete_of_save h.well h.distinct hc h.manifest hrecords hnodup hmake hends hsave
  have hcompiled (m : Path × String) (hm : m ∈ c.files) : Script.compiledText t root m.1 = text m.1 :=
    Script.compiledText_of_read (hmodules m hm (h.modules m hm))
  refine ⟨fun m hm => by rw [hcompiled m hm, hmodules m hm (h.modules m hm)], ?_⟩
  rw [htext, chunkContent, chunkContent, Script.body_congr fun module hmodule => ?_]
  obtain ⟨m, hm, rfl⟩ := List.mem_map.1 hmodule
  exact (hcompiled m hm).symm

end Bundle

/-! ## Pruning -/

namespace Manifest

/-- Some names of a directory were taken away. -/
structure Removed (dir : Path) (names : List String) (t u : FileTree) : Prop where
  well : u.WellLinked
  gone : ∀ name ∈ names, u.node? (place dir ++ [name]) = none
  entry : ∀ l, (∀ name ∈ names, l ≠ place dir ++ [name]) → u.node? l = t.node? l
  linked : ∀ l m, u.Linked l m → t.Linked l m

theorem Removed.reached (h : Removed dir names t u)
    (hfile : ∀ name ∈ names, ∃ content, t.node? (place dir ++ [name]) = some (.file content))
    (hreached : t.Reached dir) :
    u.Reached dir := by
  intro k hk
  rw [h.entry k, hreached k hk]
  rintro name hname rfl
  obtain ⟨content, hcontent⟩ := hfile name hname
  rw [hreached _ hk] at hcontent
  cases hcontent

/-- All of the names are taken away, if they can be read. -/
theorem removed_removeAll (hw : t.WellLinked) (hnames : ∀ name ∈ names, IsName name ∧ '/' ∉ name.toList)
    (hread : ∀ name ∈ names, ∃ content, t.read (dir.join ⟨name⟩) = .ok content) (n : Nat) :
    Removed dir names t (removeAll dir names (t, n)).1 := by
  have hdenotes (l : Location) : (∃ name ∈ names, Denotes t dir name l) ↔ ∃ name ∈ names, l = place dir ++ [name] := by
    refine exists_congr fun name => and_congr_right fun hname => ?_
    obtain ⟨content, hcontent⟩ := hread name hname
    rw [Denotes, place_join_name dir (hnames name hname).1 (hnames name hname).2, eq_comm (a := l)]
    exact and_iff_right (isFile_of_read hcontent)
  obtain ⟨removed, -, -, hwithout, hmem⟩ := removeAll_spec dir names t n
  refine ⟨hwithout.wellLinked hw, fun name hname => ?_, fun l hl => ?_, fun l m h => (hwithout.linked l m h).1⟩
  · exact hwithout.gone _ ((hmem _).2 ((hdenotes _).2 ⟨name, hname, rfl⟩))
  · refine hwithout.entry l fun hin => ?_
    obtain ⟨name, hname, heq⟩ := (hdenotes l).1 ((hmem l).1 hin)
    exact hl name hname heq

end Manifest
end Bundler
