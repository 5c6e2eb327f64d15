import Bundler.Proofs.Bundle.Replaced
/-!
# A bundle directory over many links

However often a directory is linked into, after each link it has the manifest, the chunks that the manifest names
and the files that were there at first, and nothing else (`links_exact`). The manifest is read back as it was
written, so each link knows what the one before it wrote and takes away what it did not write again. Between the links
everything may change but the directory (`Kept`).
-/

namespace Bundler

open FileTree

namespace Project

variable {p : Project} {dir : Path} {t₀ t u : FileTree} {b : Bundle} {last : Option Manifest} {m : Manifest}
  {report : LinkReport} {l : Location} {name : String} {c c' : Chunk}

/-! ## Links one after the other -/

/-- The chunks of a bundle as the project divides it. -/
def chunksOf (p : Project) (b : Bundle) : List Chunk := p.chunker.chunks b.entrypoints b.files

/-- The digests in the records are in hexadecimal and those of the chunks do not collide, and no chunk gets a name
that something in the bundle directory had at first. -/
structure Regular (p : Project) (t₀ : FileTree) (b : Bundle) : Prop where
  hex : ∀ f ∈ b.files, Digest.IsHex f.2.record.hash
  noCollision : ∀ c ∈ p.chunksOf b, ∀ c' ∈ p.chunksOf b,
    Digest.hash c.bytes = Digest.hash c'.bytes → c.bytes = c'.bytes
  unused : ∀ c ∈ p.chunksOf b, t₀.node? (place p.dist ++ [c.fileName]) = none

/-- A directory stays where it is and as it is, whatever else changes: what is in it is the same, and no two files
of it become one. -/
structure Kept (dir : Path) (t u : FileTree) : Prop where
  well : u.WellLinked
  entry : ∀ l, Inside (place dir) l → u.node? l = t.node? l
  reached : t.Reached dir → u.Reached dir
  linked : ∀ l m, Inside (place dir) l → Inside (place dir) m → u.Linked l m → t.Linked l m

/-- The tree without what the last manifest names and this one does not. -/
def pruned (dir : Path) (last : Option Manifest) (m : Manifest) (t : FileTree) : FileTree :=
  match last with
  | none => t
  | some last => (last.prune dir m t).1

/-- What a manifest names and the next one does not. -/
def outdated (last : Option Manifest) (m : Manifest) : List String :=
  match last with
  | none => []
  | some last => last.stale m

theorem mem_outdated : name ∈ outdated last m ↔ (∃ old, last = some old ∧ name ∈ old.files) ∧ name ∉ m.files := by
  cases last with
  | none => simp [outdated]
  | some old => simp [outdated, Manifest.stale]

/-- What a link does that succeeds. Its chunks are written beside each other. -/
structure Made (p : Project) (t u : FileTree) (m : Manifest) (b : Bundle) (made written saved : FileTree) : Prop where
  find : Bundle.find t p.buildRoot p.entrypoints = .ok b
  make : t.makeDirectories p.dist = (made, .ok ())
  write : Bundle.Ends p.buildRoot p.dist (p.chunksOf b) made written []
  manifest : m = Manifest.ofChunks (p.chunksOf b)
  save : written.write (p.dist.join Manifest.fileName) (Utf8.encode m.toJson) = .ok saved
  prune : u = pruned p.dist (p.lastManifest t) m saved

/-- A link can succeed and leave this tree and this manifest. -/
def Relinks (p : Project) (t u : FileTree) (m : Manifest) : Prop :=
  ∃ b made written saved, p.Made t u m b made written saved

/-- Projects are linked into one directory, one after the other, and all but the directory changes in between. Each
link succeeds or does not find its bundle. The manifest is the one of the last link that succeeded. -/
inductive Links (dir : Path) (t₀ : FileTree) : Option Manifest → FileTree → Prop
  | start : Links dir t₀ none t₀
  | changed {last : Option Manifest} {t u : FileTree} (h : Links dir t₀ last t) (hkept : Kept dir t u) :
    Links dir t₀ last u
  | unfound {last : Option Manifest} {t : FileTree} {p : Project} {e : LinkError} (h : Links dir t₀ last t)
    (hdist : p.dist = dir) (hfind : Bundle.find t p.buildRoot p.entrypoints = .error e) : Links dir t₀ last (p.link t).1
  | linked {last : Option Manifest} {t u : FileTree} {p : Project} {m : Manifest} (h : Links dir t₀ last t)
    (hdist : p.dist = dir) (hregular : ∀ b, Bundle.find t p.buildRoot p.entrypoints = .ok b → p.Regular t₀ b)
    (hlink : p.Relinks t u m) : Links dir t₀ (some m) u

theorem link_unfound {e : LinkError} (h : Bundle.find t p.buildRoot p.entrypoints = .error e) :
    p.link t = (t, .error e) := by
  rw [link, h]

/-- To link without choices is one way to link. -/
theorem relinks_of_link (h : p.link t = (u, .ok report)) : p.Relinks t u report.manifest := by
  unfold link at h
  dsimp only at h
  split at h
  · cases h
  next b hfind =>
  split at h
  · cases h
  next saved manifest hwrite =>
  cases h
  obtain ⟨rfl, made, written, hmake, hchunks, hsave⟩ := Bundle.parts_of_write hwrite
  refine ⟨b, made, written, saved, hfind, hmake, Bundle.ends_of_writeChunks_ok hchunks, rfl,
    Manifest.write_of_save hsave, ?_⟩
  cases p.lastManifest t <;> rfl

theorem link_of_find (hfind : Bundle.find t p.buildRoot p.entrypoints = .ok b)
    (hwrite : Bundle.write p.buildRoot p.dist (p.chunksOf b) t = (u, .ok m)) :
    p.link t = (pruned p.dist (p.lastManifest t) m u, .ok ⟨m, b.files.length, (p.chunksOf b).length⟩) := by
  rw [chunksOf] at hwrite
  rw [link, hfind]
  dsimp only
  rw [hwrite]
  cases p.lastManifest t <;> rfl

/-! ## What the directory holds -/

/-- The places of a manifest and of what it names. -/
def Own (dir : Path) (last : Option Manifest) (l : Location) : Prop :=
  ∃ m, last = some m ∧ ∃ name, (name = Manifest.fileName.text ∨ name ∈ m.files) ∧ l = place dir ++ [name]

/-- After some links the directory has a manifest, what it names, and what was there at first. -/
structure Holds (dir : Path) (t₀ : FileTree) (last : Option Manifest) (t : FileTree) : Prop where
  well : t.WellLinked
  other : ∀ l bytes, Inside (place dir) l → ¬ Own dir last l →
    (t.node? l = some (.file bytes) ↔ t₀.node? l = some (.file bytes))
  manifest : ∀ m, last = some m → t.read (dir.join Manifest.fileName) = .ok (Utf8.encode m.toJson)
  chunk : ∀ m, last = some m → ∀ name ∈ m.files,
    (∃ c : Chunk, c.fileName = name) ∧ ∃ bytes, t.read (dir.join ⟨name⟩) = .ok bytes
  fresh : ∀ l, Own dir last l → t₀.node? l = none
  single : ∀ l k, Own dir last l → Inside (place dir) k → t.Linked l k → k = l

theorem isName_manifest : IsName Manifest.fileName.text := isName_of_length (by decide)

theorem slash_notMem_manifest : '/' ∉ Manifest.fileName.text.toList := by decide

theorem place_manifest (dir : Path) : place (dir.join Manifest.fileName) = place dir ++ [Manifest.fileName.text] :=
  place_join_name dir isName_manifest slash_notMem_manifest

theorem own_manifest (dir : Path) (m : Manifest) : Own dir (some m) (place dir ++ [Manifest.fileName.text]) :=
  ⟨m, rfl, _, .inl rfl, rfl⟩

theorem own_name (dir : Path) (h : name ∈ m.files) : Own dir (some m) (place dir ++ [name]) :=
  ⟨m, rfl, name, .inr h, rfl⟩

theorem not_own_none : ¬ Own dir none l := by
  rintro ⟨m, h, -⟩
  cases h

theorem Holds.start (hw : t₀.WellLinked) : Holds dir t₀ none t₀ where
  well := hw
  other _ _ _ _ := Iff.rfl
  manifest _ h := by cases h
  chunk _ h := by cases h
  fresh _ h := absurd h not_own_none
  single _ _ h := absurd h not_own_none

theorem Holds.changed (h : Holds dir t₀ last t) (hkept : Kept dir t u) : Holds dir t₀ last u where
  well := hkept.well
  other l bytes hl hown := by rw [hkept.entry l hl, h.other l bytes hl hown]
  manifest m hm := by
    have hread := h.manifest m hm
    apply read_of_reached isName_manifest slash_notMem_manifest hread
    · exact hkept.reached (reached_of_read isName_manifest slash_notMem_manifest hread)
    · rw [hkept.entry _ (inside_name _ _), ← place_manifest]
      exact node?_of_read hread
  chunk m hm name hname := by
    obtain ⟨⟨c, rfl⟩, bytes, hread⟩ := h.chunk m hm name hname
    refine ⟨⟨c, rfl⟩, bytes, read_of_reached c.isName_fileName c.slash_notMem_fileName hread ?_ ?_⟩
    · exact hkept.reached (reached_of_read c.isName_fileName c.slash_notMem_fileName hread)
    · rw [hkept.entry _ (inside_name _ _), ← c.place_fileName]
      exact node?_of_read hread
  fresh := h.fresh
  single l k hl hk hlinked := by
    refine h.single l k hl hk (hkept.linked l k ?_ hk hlinked)
    obtain ⟨m, -, name, -, rfl⟩ := hl
    exact inside_name _ _

/-- What was not there at first has no second name in the directory. -/
theorem Holds.single_of_fresh (h : Holds dir t₀ last t) {k : Location} (hl : Inside (place dir) l)
    (hk : Inside (place dir) k)
    (hfresh : t₀.node? l = none) (hlinked : t.Linked l k) : k = l := by
  by_cases hown : Own dir last l
  · exact h.single l k hown hk hlinked
  · -- a file with a second name is there, and was there at first
    obtain ⟨group, hgroup, hmem, -⟩ := hlinked
    obtain ⟨bytes, hbytes⟩ := h.well group hgroup l hmem
    rw [h.other l bytes hl hown, hfresh] at hbytes
    cases hbytes

/-- A link reads the manifest that the last one wrote. -/
theorem Holds.lastManifest (h : Holds p.dist t₀ last t)
    (hnone : t₀.node? (place p.dist ++ [Manifest.fileName.text]) = none) : p.lastManifest t = last := by
  cases last with
  | none =>
    unfold Project.lastManifest
    cases hload : Manifest.load t (p.dist.join Manifest.fileName) with
    | error e => rfl
    | ok found =>
      unfold Manifest.load at hload
      split at hload
      · cases hload
        rfl
      · cases hload
      next bytes hread =>
      have hnode := place_manifest p.dist ▸ node?_of_read hread
      rw [h.other _ bytes (inside_name _ _) not_own_none, hnone] at hnode
      cases hnode
  | some m =>
    have hread := h.manifest m rfl
    have hload : Manifest.load t (p.dist.join Manifest.fileName) = .ok (some m) := by
      simp only [Manifest.load, hread, Manifest.decode_toJson]
    unfold Project.lastManifest
    rw [hload]

/-! ## One more link -/

/-- What a link leaves that succeeds. -/
structure Published (p : Project) (t₀ t u : FileTree) (b : Bundle) (m : Manifest) : Prop where
  /-- The manifest names the files of the chunks. -/
  named : ∀ name, name ∈ m.files ↔ ∃ c ∈ p.chunksOf b, c.fileName = name
  manifest : u.read (p.dist.join Manifest.fileName) = .ok (Utf8.encode m.toJson)
  chunk : ∀ c ∈ p.chunksOf b, Bundle.Complete p.buildRoot p.dist (p.chunksOf b) t u c
  /-- What was there at first is still there. -/
  kept : ∀ l bytes, Inside (place p.dist) l → t₀.node? l = some (.file bytes) → u.node? l = some (.file bytes)
  /-- Nothing else is there. -/
  only : ∀ l bytes, Inside (place p.dist) l → u.node? l = some (.file bytes) →
    t₀.node? l = some (.file bytes) ∨ l = place p.dist ++ [Manifest.fileName.text] ∨
      ∃ name ∈ m.files, l = place p.dist ++ [name]

section Step

variable {made written saved : FileTree} (h : Holds p.dist t₀ last t)
  (hnone : t₀.node? (place p.dist ++ [Manifest.fileName.text]) = none) (hregular : p.Regular t₀ b)
  (hmade : p.Made t u m b made written saved)

include hmade in
theorem Made.mem_files : name ∈ m.files ↔ ∃ c ∈ p.chunksOf b, c.fileName = name := by
  rw [hmade.manifest]
  exact Chunker.mem_files_chunks hmade.find p.chunker

include h hmade in
theorem Made.grows : Grows t made := Bundle.grows_of_makeDirectories h.well hmade.make

include hnone hregular hmade in
/-- What a link writes was not there at first. -/
theorem Made.fresh (hown : Own p.dist (some m) l) : t₀.node? l = none := by
  obtain ⟨m', heq, name, hname, rfl⟩ := hown
  cases heq
  rcases hname with rfl | hname
  · exact hnone
  · obtain ⟨c, hc, rfl⟩ := hmade.mem_files.1 hname
    exact hregular.unused c hc

include h hnone hregular hmade in
/-- In the directory, a link changes a file under one name only. -/
theorem Made.eq_of_mem_names {k : Location} (hown : Own p.dist (some m) k) (hl : Inside (place p.dist) l)
    (hmem : l ∈ t.names k) : l = k := by
  have hk : Inside (place p.dist) k := by
    obtain ⟨-, -, name, -, rfl⟩ := hown
    exact inside_name _ _
  by_contra hne
  exact hne (h.single_of_fresh hk hl (hmade.fresh hnone hregular hown) (linked_of_mem_names hmem hne))

include h hnone hregular hmade in
theorem Made.distinct : Bundle.Distinct p.dist (p.chunksOf b) t := by
  have hlabelled (c : Chunk) (hc : c ∈ p.chunksOf b) : c.Labelled :=
    Chunker.labelled_of_mem hmade.find (fun f hf => (hregular.hex f hf).text) hc
  refine ⟨fun c hc c' hc' hname => ?_, fun c hc c' hc' hmem => ?_⟩
  · exact (hlabelled c hc).eq_of_fileName (hlabelled c' hc') hname (hregular.noCollision c hc c' hc')
  · rw [c.place_fileName, c'.place_fileName] at hmem
    have hown := own_name p.dist (hmade.mem_files.2 ⟨c', hc', rfl⟩)
    have hsame := hmade.eq_of_mem_names h hnone hregular hown (inside_name _ _) hmem
    exact List.singleton_inj.1 (List.append_cancel_left hsame)

include h hnone hregular hmade in
theorem Made.replaced : Bundle.Replaced p.buildRoot p.dist (p.chunksOf b) made written :=
  hmade.write.replaced ((hmade.grows h).wellLinked h.well)
    ((hmade.distinct h hnone hregular).of_links (hmade.grows h).links) (Chunker.nodup_modules hmade.find p.chunker)

include h hnone hregular hmade in
/-- Writing changes nothing in the directory but what the manifest names, and the manifest. -/
theorem Made.own_of_affected (hl : Inside (place p.dist) l) (haffected : Bundle.Affected p.dist (p.chunksOf b) made l) :
    Own p.dist (some m) l := by
  obtain ⟨c, hc, hmem⟩ := haffected
  have hown := own_name p.dist (hmade.mem_files.2 ⟨c, hc, rfl⟩)
  rw [names_congr (hmade.grows h).links, c.place_fileName] at hmem
  rw [hmade.eq_of_mem_names h hnone hregular hown hl hmem]
  exact hown

include h hnone hregular hmade in
theorem Made.saved_same : SameBut (· ∈ t.names (place p.dist ++ [Manifest.fileName.text])) written saved := by
  have hreplaced := hmade.replaced h hnone hregular
  have hsame := sameBut_names hreplaced.well hmade.save
  rw [names_congr hreplaced.same.links, names_congr (hmade.grows h).links, place_manifest] at hsame
  exact hsame

include h hnone hregular hmade in
theorem Made.saved_entry (hl : Inside (place p.dist) l) (hown : ¬ Own p.dist (some m) l) :
    saved.node? l = made.node? l := by
  rw [(hmade.saved_same h hnone hregular).entry l fun hmem => hown ?_,
    (hmade.replaced h hnone hregular).same.entry l fun haffected =>
      hown (hmade.own_of_affected h hnone hregular hl haffected)]
  rw [hmade.eq_of_mem_names h hnone hregular (own_manifest _ m) hl hmem]
  exact own_manifest _ m

include h hnone hregular hmade in
theorem Made.saved_manifest : saved.read (p.dist.join Manifest.fileName) = .ok (Utf8.encode m.toJson) :=
  read_of_write (hmade.replaced h hnone hregular).well hmade.save

include h hnone hregular hmade in
/-- Each chunk is whole when the manifest was saved. -/
theorem Made.saved_chunk (hc : c ∈ p.chunksOf b) :
    Bundle.Complete p.buildRoot p.dist (p.chunksOf b) t saved c := by
  refine Bundle.complete_of_save h.well (hmade.distinct h hnone hregular) hc (fun hmem => ?_)
    (Bundle.read_records hmade.find hc) (Chunker.nodup_modules hmade.find p.chunker) hmade.make
    hmade.write hmade.save
  rw [place_manifest, c.place_fileName] at hmem
  have heq := hmade.eq_of_mem_names h hnone hregular (own_manifest _ m) (inside_name _ _) hmem
  exact c.fileName_ne_manifest (List.singleton_inj.1 (List.append_cancel_left heq))

include h hnone hregular hmade in
/-- What the last link named can still be read before it is pruned. -/
theorem Made.saved_outdated (hname : name ∈ outdated last m) : (IsName name ∧ '/' ∉ name.toList) ∧
    ∃ bytes, saved.read (p.dist.join ⟨name⟩) = .ok bytes := by
  obtain ⟨⟨old, hold, hmem⟩, hnot⟩ := mem_outdated.1 hname
  obtain ⟨⟨c, rfl⟩, bytes, hread⟩ := h.chunk old hold name hmem
  have hgrows := hmade.grows h
  refine ⟨⟨c.isName_fileName, c.slash_notMem_fileName⟩, bytes, ?_⟩
  have hown : ¬ Own p.dist (some m) (place p.dist ++ [c.fileName]) := by
    rintro ⟨m', heq, name, hname, hplace⟩
    cases heq
    obtain rfl := List.singleton_inj.1 (List.append_cancel_left hplace)
    exact hname.elim c.fileName_ne_manifest hnot
  have hreplaced := hmade.replaced h hnone hregular
  rw [(hmade.saved_same h hnone hregular).read_iff, hreplaced.same.read_iff]
  · exact hgrows.read hread
  · rw [c.place_fileName]
    exact fun haffected => hown (hmade.own_of_affected h hnone hregular (inside_name _ _) haffected)
  · rw [c.place_fileName]
    intro hmem
    rw [hmade.eq_of_mem_names h hnone hregular (own_manifest _ m) (inside_name _ _) hmem] at hown
    exact hown (own_manifest _ m)

include h hnone hregular hmade in
theorem Made.removed : Manifest.Removed p.dist (outdated last m) saved u := by
  have hwell := wellLinked_write (hmade.replaced h hnone hregular).well hmade.save
  rw [hmade.prune, h.lastManifest hnone]
  cases last with
  | none => exact ⟨hwell, fun _ hmem => absurd hmem List.not_mem_nil, fun _ _ => rfl, fun _ _ hlinked => hlinked⟩
  | some old =>
    apply Manifest.removed_removeAll hwell
    · exact fun name hname => (hmade.saved_outdated h hnone hregular hname).1
    · exact fun name hname => (hmade.saved_outdated h hnone hregular hname).2

include h hnone hregular hmade in
/-- What is not outdated is read after the pruning as before. -/
theorem Made.read (hname : IsName name) (hslash : '/' ∉ name.toList) (hcurrent : name ∉ outdated last m) {bytes : Bytes}
    (hread : saved.read (p.dist.join ⟨name⟩) = .ok bytes) : u.read (p.dist.join ⟨name⟩) = .ok bytes := by
  have hremoved := hmade.removed h hnone hregular
  apply read_of_reached hname hslash hread
  · refine hremoved.reached (fun stale hstale => ?_) (reached_of_read hname hslash hread)
    obtain ⟨⟨hisName, hslash'⟩, content, hcontent⟩ := hmade.saved_outdated h hnone hregular hstale
    exact ⟨content, place_join_name p.dist hisName hslash' ▸ node?_of_read hcontent⟩
  · rw [hremoved.entry, ← place_join_name p.dist hname hslash]
    · exact node?_of_read hread
    · intro stale hstale heq
      obtain rfl := List.singleton_inj.1 (List.append_cancel_left heq)
      exact hcurrent hstale

include h hnone hregular hmade in
/-- The directory has the manifest, what it names, and what was there at first. -/
theorem Made.holds : Holds p.dist t₀ (some m) u where
  well := (hmade.removed h hnone hregular).well
  other l bytes hl hown := by
    have hremoved := hmade.removed h hnone hregular
    by_cases hstale : ∃ name ∈ outdated last m, l = place p.dist ++ [name]
    · -- what was taken away was not there at first
      obtain ⟨name, hname, rfl⟩ := hstale
      obtain ⟨⟨old, hold, hmem⟩, -⟩ := mem_outdated.1 hname
      rw [hremoved.gone name hname, h.fresh _ (hold ▸ own_name p.dist hmem)]
    · rw [hremoved.entry l fun name hname heq => hstale ⟨name, hname, heq⟩, hmade.saved_entry h hnone hregular hl hown,
        (hmade.grows h).file_iff]
      apply h.other l bytes hl
      rintro ⟨old, hold, name, hname, rfl⟩
      rcases hname with rfl | hname
      · exact hown (own_manifest _ m)
      · refine hstale ⟨name, mem_outdated.2 ⟨⟨old, hold, hname⟩, fun hmem => ?_⟩, rfl⟩
        exact hown (own_name _ hmem)
  manifest m' heq := by
    cases heq
    apply hmade.read h hnone hregular isName_manifest slash_notMem_manifest _ (hmade.saved_manifest h hnone hregular)
    intro hstale
    obtain ⟨⟨old, hold, hmem⟩, -⟩ := mem_outdated.1 hstale
    obtain ⟨⟨c, hc⟩, -⟩ := h.chunk old hold _ hmem
    exact c.fileName_ne_manifest hc
  chunk m' heq name hname := by
    cases heq
    obtain ⟨c, hc, rfl⟩ := hmade.mem_files.1 hname
    obtain ⟨text, htext, -⟩ := hmade.saved_chunk h hnone hregular hc
    refine ⟨⟨c, rfl⟩, _, hmade.read h hnone hregular c.isName_fileName c.slash_notMem_fileName ?_ htext⟩
    exact fun hstale => (mem_outdated.1 hstale).2 hname
  fresh l hown := hmade.fresh hnone hregular hown
  single l k hown hk hlinked := by
    have hlinked : t.Linked l k := by
      have hsaved := (hmade.removed h hnone hregular).linked l k hlinked
      rwa [Linked, links_write hmade.save, (hmade.replaced h hnone hregular).same.links,
        (hmade.grows h).links] at hsaved
    have hl : Inside (place p.dist) l := by
      obtain ⟨-, -, name, -, rfl⟩ := hown
      exact inside_name _ _
    exact h.single_of_fresh hl hk (hmade.fresh hnone hregular hown) hlinked

include h hnone hregular hmade in
theorem Made.published : Published p t₀ t u b m where
  named _ := hmade.mem_files
  manifest := (hmade.holds h hnone hregular).manifest m rfl
  chunk c hc := by
    obtain ⟨text, htext, hmodules⟩ := hmade.saved_chunk h hnone hregular hc
    refine ⟨text, hmade.read h hnone hregular c.isName_fileName c.slash_notMem_fileName ?_ htext, hmodules⟩
    exact fun hstale => (mem_outdated.1 hstale).2 (hmade.mem_files.2 ⟨c, hc, rfl⟩)
  kept l bytes hl hfile := by
    rw [(hmade.holds h hnone hregular).other l bytes hl fun hown => ?_, hfile]
    rw [hmade.fresh hnone hregular hown] at hfile
    cases hfile
  only l bytes hl hfile := by
    by_cases hown : Own p.dist (some m) l
    · obtain ⟨m', heq, name, hname, rfl⟩ := hown
      cases heq
      rcases hname with rfl | hname
      · exact .inr (.inl rfl)
      · exact .inr (.inr ⟨name, hname, rfl⟩)
    · exact .inl ((hmade.holds h hnone hregular).other l bytes hl hown |>.1 hfile)

end Step

/-! ## Any number of links -/

theorem Links.holds (h : Links dir t₀ last t) (hw : t₀.WellLinked)
    (hnone : t₀.node? (place dir ++ [Manifest.fileName.text]) = none) : Holds dir t₀ last t := by
  induction h with
  | start => exact .start hw
  | changed _ hkept ih => exact ih.changed hkept
  | unfound _ _ hfind ih =>
    rw [link_unfound hfind]
    exact ih
  | linked _ hdist hregular hlink ih =>
    subst hdist
    obtain ⟨b, made, written, saved, hmade⟩ := hlink
    exact hmade.holds ih hnone (hregular b hmade.find)

/-- No outdated chunk stays and no current one is lost. In a directory that had no manifest at first, a link that
succeeds after any number of others leaves what was there at first, the manifest, and the files that it names, each
with its chunk, however its chunks are written beside each other; and a link that does not find its bundle changes
nothing. -/
theorem links_exact (h : Links p.dist t₀ last t) (hw : t₀.WellLinked)
    (hnone : t₀.node? (place p.dist ++ [Manifest.fileName.text]) = none) :
    (∀ e, Bundle.find t p.buildRoot p.entrypoints = .error e → p.link t = (t, .error e)) ∧
      (∀ b u report, Bundle.find t p.buildRoot p.entrypoints = .ok b → p.Regular t₀ b → p.link t = (u, .ok report) →
        Published p t₀ t u b report.manifest) ∧
      ∀ b u m, Bundle.find t p.buildRoot p.entrypoints = .ok b → p.Regular t₀ b → p.Relinks t u m →
        Published p t₀ t u b m := by
  have hrelinked (b : Bundle) (u : FileTree) (m : Manifest) (hfind : Bundle.find t p.buildRoot p.entrypoints = .ok b)
      (hregular : p.Regular t₀ b) (hlink : p.Relinks t u m) : Published p t₀ t u b m := by
    obtain ⟨b', made, written, saved, hmade⟩ := hlink
    obtain rfl : b' = b := Except.ok.inj (hmade.find.symm.trans hfind)
    exact hmade.published (h.holds hw hnone) hnone hregular
  exact ⟨fun e hfind => link_unfound hfind,
    fun b u report hfind hregular hlink => hrelinked b u _ hfind hregular (relinks_of_link hlink), hrelinked⟩

/-! ## A script that changes -/

/-- A project with a script to start. -/
def scriptProject (chunker : Chunker) : Project := { oneScript .copy with chunker }

/-- The record of the script with the digest of its source. -/
def recordWith (hash : String) : Record := ⟨⟨"build/src/a.js"⟩, hash, []⟩

/-- The bundle of the script. -/
def bundleWith (hash : String) : Bundle :=
  ⟨⟨"/w/build"⟩, [scriptEntry], [(⟨"src/a.js"⟩, ⟨recordWith hash, ["./src/a.js"]⟩)]⟩

/-- The chunk of the script. -/
def chunkWith (hash : String) : Chunk := ⟨some scriptEntry, [(⟨"src/a.js"⟩, hash)], []⟩

/-- Puts the script there, compiled from a source. -/
def compileScript (source : Bytes) (hash : String) (t : FileTree) : FileTree :=
  (t.put ["w", "build", "src", "a.js"] (.file source)).put ["w", "build", "src", "a.js.meta.cbor"]
    (.file (recordWith hash).encode)

/-- Empties the file of the script's chunk. -/
def emptyChunk (name : String) (t : FileTree) : FileTree := t.put ["w", "dist", name] (.file [])

/-- Writes the script's chunk. -/
def fillChunk (source : Bytes) (hash name : String) (t : FileTree) : FileTree :=
  (emptyChunk name t).put ["w", "dist", name] (.file (Bundle.chunkContent (chunkWith hash) fun _ => source))

/-- Writes the script's chunk and the manifest. -/
def linkScript (source : Bytes) (hash name : String) (t : FileTree) : FileTree :=
  (fillChunk source hash name t).put ["w", "dist", "manifest.json"]
    (.file (Utf8.encode (Manifest.ofChunks [chunkWith hash]).toJson))

/-- A directory to compile into, and one for bundles with a page in it. -/
def withPage : FileTree :=
  ⟨[(["w"], .directory), (["w", "build"], .directory), (["w", "build", "src"], .directory), (["w", "dist"], .directory),
    (["w", "dist", "index.html"], .file [])], [], []⟩

/-- The script was compiled. -/
def firstScript : FileTree := compileScript [0x78] scriptHash withPage

/-- The digest of the changed script. -/
def changedHash : String := "08112a9e334ce73042b531c25668cf5cb12a1ee040a4326afeac065461079a06"

/-- The name of the changed chunk. -/
def changedName : String := "a.4a108a1849a4f982f0f14a4da4b8eefa2feb3c38fc16e9d654837692bcfd1d9f.js"

/-- The script was linked, changed and compiled again. -/
def changedScript : FileTree := compileScript [0x79] changedHash (linkScript [0x78] scriptHash chunkName firstScript)

theorem find_changing {hash : String}
    (h : (Bundle.Search.addEntrypoints t ⟨"/w/build"⟩ (keepFirst ["./src/a.js"]) ⟨[], []⟩).toOption =
      some ([scriptEntry], ⟨[(⟨"src/a.js"⟩, recordWith hash)], [⟨"src/a.js"⟩]⟩)) :
    Bundle.find t ⟨"/w/build"⟩ ["./src/a.js"] = .ok (bundleWith hash) := by
  have hfollow : Bundle.Search.follow t ⟨"/w/build"⟩ 1 ⟨[(⟨"src/a.js"⟩, recordWith hash)], [⟨"src/a.js"⟩]⟩ =
      .ok ⟨[(⟨"src/a.js"⟩, recordWith hash)], []⟩ := rfl
  rw [Bundle.find_of_done (eq_of_toOption h) hfollow rfl (by decide)]
  rfl

/-- What it takes to link the script. -/
def Linkable (source : Bytes) (hash name : String) (t : FileTree) : Prop :=
  (Bundle.Search.addEntrypoints t ⟨"/w/build"⟩ (keepFirst ["./src/a.js"]) ⟨[], []⟩).toOption =
      some ([scriptEntry], ⟨[(⟨"src/a.js"⟩, recordWith hash)], [⟨"src/a.js"⟩]⟩) ∧
    (t.read (Path.join ⟨"/w/dist"⟩ ⟨"index.html"⟩)).toOption = some [] ∧
    (t.write (Path.join ⟨"/w/dist"⟩ ⟨name⟩) []).toOption.isSome ∧
    ((emptyChunk name t).read (Path.join ⟨"/w/build"⟩ ⟨"src/a.js"⟩)).toOption = some source ∧
    ((emptyChunk name t).write (Path.join ⟨"/w/dist"⟩ ⟨name⟩) []).toOption.isSome ∧
    ((fillChunk source hash name t).write (Path.join ⟨"/w/dist"⟩ Manifest.fileName) []).toOption.isSome

instance (source : Bytes) (hash name : String) (t : FileTree) : Decidable (Linkable source hash name t) :=
  inferInstanceAs (Decidable (_ ∧ _))

theorem place_dist : place ⟨"/w/dist"⟩ = ["w", "dist"] := by decide

theorem notMem_trail_dist :
    ∀ k ∈ trail ⟨"/w/dist"⟩, k ≠ ["w", "build", "src", "a.js"] ∧ k ≠ ["w", "build", "src", "a.js.meta.cbor"] := by
  decide

theorem fileName_first : (chunkWith scriptHash).fileName = chunkName := names_script.2.2.2.2

theorem hash_changed : changedHash = (Digest.hash [0x79]).toHex := by decide +kernel

theorem fileName_changed : (chunkWith changedHash).fileName = changedName := by decide +kernel

theorem linkable_scripts : Linkable [0x78] scriptHash chunkName firstScript ∧
    Linkable [0x79] changedHash changedName changedScript := by decide +kernel

/-- At first there is the page, and nothing of a bundle. -/
theorem unlinked_firstScript :
    firstScript.node? ["w", "dist", chunkName] = none ∧ firstScript.node? ["w", "dist", changedName] = none ∧
      firstScript.node? ["w", "dist", "manifest.json"] = none ∧
      firstScript.node? ["w", "dist", "index.html"] = some (.file []) ∧
      (scriptProject .perEntrypoint).lastManifest firstScript = none := by decide

theorem isSome_chunk_changedScript : (changedScript.node? ["w", "dist", chunkName]).isSome := by decide

theorem buildRoot_scriptProject (chunker : Chunker) : (scriptProject chunker).buildRoot = ⟨"/w/build"⟩ :=
  buildRoot_oneScript .copy

theorem dist_scriptProject (chunker : Chunker) : (scriptProject chunker).dist = ⟨"/w/dist"⟩ :=
  dist_oneScript .copy

theorem chunksOf_changing (chunker : Chunker) (hash : String) :
    (scriptProject chunker).chunksOf (bundleWith hash) = [chunkWith hash] := by
  cases chunker <;> rfl

variable {source : Bytes} {hash : String}

theorem writeChunks_changing (hlinkable : Linkable source hash name t)
    (hname : (chunkWith hash).fileName = name) :
    Bundle.writeChunks ⟨"/w/build"⟩ ⟨"/w/dist"⟩ [chunkWith hash] t = (fillChunk source hash name t, .ok ()) := by
  obtain ⟨-, -, hempty, hread, hfill, -⟩ := hlinkable
  have hplace : place (Path.join ⟨"/w/dist"⟩ ⟨name⟩) = ["w", "dist", name] := by
    rw [← hname, Chunk.place_fileName, place_dist]
    rfl
  have hread := eq_of_toOption hread
  have htext : Script.compiledText (emptyChunk name t) ⟨"/w/build"⟩ ⟨"src/a.js"⟩ = source :=
    Script.compiledText_of_read hread
  have hcontent : Bundle.chunkContent (chunkWith hash) (Script.compiledText (emptyChunk name t) ⟨"/w/build"⟩) =
      Bundle.chunkContent (chunkWith hash) fun _ => source := by
    rw [Bundle.chunkContent_eq_iff rfl rfl]
    exact Script.body_congr fun module hm => by rw [List.mem_singleton.1 hm, htext]
  rw [Bundle.writeChunks_singleton_iff, hname]
  refine ⟨emptyChunk name t, ?_, fun m hm => ?_, ?_⟩
  · rw [write_of_isSome hempty, hplace, emptyChunk]
  · rw [List.mem_singleton.1 hm, htext]
    exact hread
  · rw [hcontent, write_of_isSome hfill, hplace, fillChunk]

theorem write_changing (hlinkable : Linkable source hash name t)
    (hname : (chunkWith hash).fileName = name) : Bundle.write ⟨"/w/build"⟩ ⟨"/w/dist"⟩ [chunkWith hash] t =
      (linkScript source hash name t, .ok (Manifest.ofChunks [chunkWith hash])) := by
  have hchunks := writeChunks_changing hlinkable hname
  obtain ⟨-, hpage, -, -, -, hsave⟩ := hlinkable
  have hmake := makeDirectories_of_read (isName_of_length (by decide)) (by decide) (eq_of_toOption hpage)
  have hsaved : (Manifest.ofChunks [chunkWith hash]).save (fillChunk source hash name t)
      (Path.join ⟨"/w/dist"⟩ Manifest.fileName) = .ok (linkScript source hash name t) := by
    rw [Manifest.save, write_of_isSome hsave, place_manifest, place_dist]
    rfl
  exact Bundle.write_of_parts hmake hchunks hsaved

theorem link_changing (chunker : Chunker) (hlinkable : Linkable source hash name t)
    (hname : (chunkWith hash).fileName = name) : ∃ modules chunks, (scriptProject chunker).link t =
      (pruned (scriptProject chunker).dist ((scriptProject chunker).lastManifest t) (Manifest.ofChunks [chunkWith hash])
        (linkScript source hash name t), .ok ⟨Manifest.ofChunks [chunkWith hash], modules, chunks⟩) := by
  have hfind := find_changing hlinkable.1
  rw [← buildRoot_scriptProject chunker] at hfind
  refine ⟨_, _, link_of_find hfind ?_⟩
  rw [buildRoot_scriptProject, dist_scriptProject, chunksOf_changing]
  exact write_changing hlinkable hname

theorem regular_changing (chunker : Chunker) (hlinkable : Linkable source hash name t)
    (hhash : Digest.IsHex hash) (hunused : firstScript.node? ["w", "dist", (chunkWith hash).fileName] = none) :
    ∀ b, Bundle.find t (scriptProject chunker).buildRoot (scriptProject chunker).entrypoints = .ok b →
      (scriptProject chunker).Regular firstScript b := by
  intro b hb
  rw [buildRoot_scriptProject] at hb
  obtain rfl : bundleWith hash = b := Except.ok.inj ((find_changing hlinkable.1).symm.trans hb)
  refine ⟨fun f hf => ?_, fun c hc c' hc' _ => ?_, fun c hc => ?_⟩
  · rw [List.mem_singleton.1 hf]
    exact hhash
  · rw [chunksOf_changing] at hc hc'
    rw [List.mem_singleton.1 hc, List.mem_singleton.1 hc']
  · rw [chunksOf_changing] at hc
    rw [List.mem_singleton.1 hc, dist_scriptProject, place_dist]
    exact hunused

/-- Compiling the script again changes nothing where the bundles are. -/
theorem kept_compileScript (source : Bytes) (hash : String) (hlinks : t.links = []) :
    Kept ⟨"/w/dist"⟩ t (compileScript source hash t) := by
  have halone {u : FileTree} (hu : u.links = []) (l : Location) : u.Alone l := fun group hgroup => by
    rw [hu] at hgroup
    cases hgroup
  have hentry {l : Location} (hsource : l ≠ ["w", "build", "src", "a.js"])
      (hrecord : l ≠ ["w", "build", "src", "a.js.meta.cbor"]) : (compileScript source hash t).node? l = t.node? l := by
    rw [compileScript, node?_put_of_alone _ (halone ?_ l) hrecord, node?_put_of_alone _ (halone hlinks l) hsource]
    exact hlinks
  constructor
  · intro group hgroup
    cases hlinks ▸ hgroup
  · rintro l ⟨hl, -⟩
    rw [place_dist] at hl
    apply hentry <;> rintro rfl <;> exact absurd hl (by decide)
  · intro hreached k hk
    have hother := notMem_trail_dist
    rw [hentry (hother k hk).1 (hother k hk).2]
    exact hreached k hk
  · rintro l m - - ⟨group, hgroup, -⟩
    cases hlinks ▸ hgroup

theorem links_changedScript (chunker : Chunker) : Links (scriptProject chunker).dist firstScript
    (some (Manifest.ofChunks [chunkWith scriptHash])) changedScript := by
  obtain ⟨hlinkable, -⟩ := linkable_scripts
  obtain ⟨hunused, -, -, -, hlast⟩ := unlinked_firstScript
  have hhash : Digest.IsHex scriptHash := names_script.2.2.2.1 ▸ Digest.isHex_toHex [0x78]
  obtain ⟨modules, chunks, hlink⟩ := link_changing .perEntrypoint hlinkable fileName_first
  rw [hlast, pruned] at hlink
  rw [dist_scriptProject]
  refine .changed (.linked .start (dist_scriptProject .perEntrypoint) ?_ (relinks_of_link hlink))
    (kept_compileScript _ _ rfl)
  exact regular_changing .perEntrypoint hlinkable hhash (by rw [fileName_first]; exact hunused)

/-- A script is linked, changed, and linked again in another way. Its first chunk is gone then, and the page is still
there. -/
theorem links_exact_changed : ∃ u report, (scriptProject .splitCommon).link changedScript = (u, .ok report) ∧
    Published (scriptProject .splitCommon) firstScript changedScript u (bundleWith changedHash) report.manifest ∧
    u.node? ["w", "dist", "index.html"] = some (.file []) ∧
    (changedScript.node? ["w", "dist", chunkName]).isSome ∧
    ∀ bytes, u.node? ["w", "dist", chunkName] ≠ some (.file bytes) := by
  obtain ⟨-, hlinkable⟩ := linkable_scripts
  obtain ⟨hgone, hunused, hnone, hpage, -⟩ := unlinked_firstScript
  have hhash : Digest.IsHex changedHash := hash_changed ▸ Digest.isHex_toHex [0x79]
  obtain ⟨modules, chunks, hlink⟩ := link_changing .splitCommon hlinkable fileName_changed
  have hfind := find_changing hlinkable.1
  rw [← buildRoot_scriptProject .splitCommon] at hfind
  have hregular := regular_changing .splitCommon hlinkable hhash (by rw [fileName_changed]; exact hunused) _ hfind
  have hplace : place (scriptProject .splitCommon).dist = ["w", "dist"] := by rw [dist_scriptProject, place_dist]
  have hpublished := (links_exact (links_changedScript .splitCommon) (fun _ hgroup => by cases hgroup)
    (by rw [hplace]; exact hnone)).2.1 _ _ _ hfind hregular hlink
  refine ⟨_, _, hlink, hpublished, ?_, isSome_chunk_changedScript, fun bytes hbytes => ?_⟩
  · apply hpublished.kept _ _ _ hpage
    rw [hplace]
    exact inside_name ["w", "dist"] "index.html"
  · have hinside : Inside (place (scriptProject .splitCommon).dist) ["w", "dist", chunkName] := by
      rw [hplace]
      exact inside_name ["w", "dist"] chunkName
    rcases hpublished.only _ bytes hinside hbytes with hfirst | hmanifest | ⟨name, hmem, hchunk⟩
    · rw [hgone] at hfirst
      cases hfirst
    · rw [hplace] at hmanifest
      exact absurd hmanifest (by decide)
    · obtain ⟨c, hc, rfl⟩ := (hpublished.named name).1 hmem
      rw [chunksOf_changing] at hc
      rw [List.mem_singleton.1 hc, fileName_changed, hplace] at hchunk
      exact absurd hchunk (by decide)

end Project
end Bundler
