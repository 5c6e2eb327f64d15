import Bundler.Proofs.Bundle.Links
/-!
# Writing chunks in any order

However the writes of a bundle's chunks are ordered, also when they overlap, the directory ends up with the same files:
each chunk under its name, the manifest, whose names are all there, and everything else as it was (`write_any_order`).
Chunks may share a file, because two specifiers may stand for one module; then they are written alike. This needs files
of their own for the chunks and the manifest: what is written to a file that has another name in the directory is there
under that name as well (`write_shared`).
-/

namespace Bundler

namespace Bundle

open FileTree

variable {root dir : Path} {chunks order : List Chunk} {c : Chunk} {t₀ t made written u u' : FileTree} {l : Location}
  {name : String} {specifiers : List String} {b : Bundle} {chunker : Chunker} {m : Manifest}

/-- The names of what is written: the chunks' files and the manifest. -/
def outputs (chunks : List Chunk) : List String := Manifest.fileName.text :: chunks.map (·.fileName)

/-- What has a name of something that is written. -/
def Touched (dir : Path) (chunks : List Chunk) (t : FileTree) (l : Location) : Prop :=
  ∃ name ∈ outputs chunks, l ∈ t.names (place dir ++ [name])

/-- What is written is not the compiled file of a member, and nothing of it has a second name in the directory. -/
structure Detached (root dir : Path) (chunks : List Chunk) (t : FileTree) : Prop where
  member : ∀ c ∈ chunks, ∀ m ∈ c.files, ¬ Touched dir chunks t (place (root.join m.1))
  single : ∀ name ∈ outputs chunks, ∀ l ∈ t.names (place dir ++ [name]), Inside (place dir) l → l = place dir ++ [name]

/-- A bundle is in a directory. -/
structure Stored (root dir : Path) (chunks : List Chunk) (t u : FileTree) : Prop where
  /-- The file of a chunk has what is around modules and the modules as they were compiled, each in a function. -/
  chunk : ∀ c ∈ chunks, u.read (dir.join ⟨c.fileName⟩) = .ok (chunkContent c (Script.compiledText u root))
  /-- The modules are in path order, and no two of them have one path. -/
  ascending : ∀ c ∈ chunks, Sorted.Ascending Path.compare c.files
  /-- What was compiled is there, and was there before. -/
  member : ∀ c ∈ chunks, ∀ m ∈ c.files, u.read (root.join m.1) = .ok (Script.compiledText u root m.1) ∧
    t.node? (place (root.join m.1)) = some (.file (Script.compiledText u root m.1))
  manifest : u.read (dir.join Manifest.fileName) = .ok (Utf8.encode (Manifest.ofChunks chunks).toJson)
  /-- What the manifest names is there. -/
  named : ∀ entry ∈ (Manifest.ofChunks chunks).entries, ∀ name ∈ entry.2.file :: entry.2.loads,
    ∃ bytes, u.read (dir.join ⟨name⟩) = .ok bytes
  /-- Each other file of the directory is as it was. -/
  other : ∀ l bytes, Inside (place dir) l → (∀ name ∈ outputs chunks, l ≠ place dir ++ [name]) →
    (u.node? l = some (.file bytes) ↔ t.node? l = some (.file bytes))

theorem fileName_mem_outputs (hc : c ∈ chunks) : c.fileName ∈ outputs chunks :=
  List.mem_cons_of_mem _ (List.mem_map_of_mem hc)

theorem manifest_mem_outputs : Manifest.fileName.text ∈ outputs chunks := List.mem_cons_self

/-! ## Where nothing is shared -/

namespace Detached

variable (h : Detached root dir chunks t)
include h

theorem distinct (hlabelled : ∀ c ∈ chunks, c.Labelled)
    (noCollision : ∀ c ∈ chunks, ∀ c' ∈ chunks, Digest.hash c.bytes = Digest.hash c'.bytes → c.bytes = c'.bytes) :
    Distinct dir chunks t := by
  refine ⟨fun c hc c' hc' hname => ?_, fun c hc c' hc' hmem => ?_⟩
  · exact (hlabelled c hc).eq_of_fileName (hlabelled c' hc') hname (noCollision c hc c' hc')
  · rw [c.place_fileName, c'.place_fileName] at hmem
    have heq := h.single _ (fileName_mem_outputs hc') _ hmem (inside_name _ _)
    exact List.singleton_inj.1 (List.append_cancel_left heq)

/-- In the directory, only what is written has a name of what is written. -/
theorem not_touched (hl : Inside (place dir) l) (hother : ∀ name ∈ outputs chunks, l ≠ place dir ++ [name]) :
    ¬ Touched dir chunks t l := by
  rintro ⟨name, hname, hmem⟩
  exact hother name hname (h.single name hname l hmem hl)

/-- The manifest is not saved into the file of a chunk. -/
theorem notMem_names_manifest (c : Chunk) :
    place (dir.join ⟨c.fileName⟩) ∉ t.names (place (dir.join Manifest.fileName)) := by
  rw [c.place_fileName, Project.place_manifest]
  intro hmem
  have heq := h.single _ manifest_mem_outputs _ hmem (inside_name _ _)
  exact c.fileName_ne_manifest (List.singleton_inj.1 (List.append_cancel_left heq))

end Detached

/-! ## One way to write -/

theorem touched_of_affected (hgrows : Grows t made) (h : Affected dir chunks made l) : Touched dir chunks t l := by
  obtain ⟨c, hc, hmem⟩ := h
  rw [names_congr hgrows.links, c.place_fileName] at hmem
  exact ⟨_, fileName_mem_outputs hc, hmem⟩

section Saved

variable {bytes : Bytes} (hgrows : Grows t made) (hreplaced : Replaced root dir chunks made written)
  (hsave : written.write (dir.join Manifest.fileName) bytes = .ok u)
include hgrows hreplaced hsave

theorem sameBut_save : SameBut (· ∈ t.names (place (dir.join Manifest.fileName))) written u := by
  have hsame := sameBut_names hreplaced.well hsave
  rwa [names_congr hreplaced.same.links, names_congr hgrows.links] at hsame

theorem sameBut_touched : SameBut (Touched dir chunks t) made u := by
  refine (hreplaced.same.mono fun l => touched_of_affected hgrows).trans
    ((sameBut_save hgrows hreplaced hsave).mono fun l hmem => ?_)
  rw [Project.place_manifest] at hmem
  exact ⟨_, manifest_mem_outputs, hmem⟩

/-- Each chunk is whole, with its modules as they were before. -/
theorem chunk_of_save (h : Detached root dir chunks t) (hc : c ∈ chunks) :
    u.read (dir.join ⟨c.fileName⟩) = .ok (chunkContent c (Script.compiledText u root)) ∧
      ∀ m ∈ c.files, u.read (root.join m.1) = .ok (Script.compiledText u root m.1) ∧
        t.node? (place (root.join m.1)) = some (.file (Script.compiledText u root m.1)) := by
  obtain ⟨text, htext, hmodules⟩ := hreplaced.complete c hc
  have hmade (m : Path × String) (hm : m ∈ c.files) : made.read (root.join m.1) = .ok (text m.1) :=
    hmodules m hm fun haffected => h.member c hc m hm (touched_of_affected hgrows haffected)
  have hread (m : Path × String) (hm : m ∈ c.files) : u.read (root.join m.1) = .ok (text m.1) :=
    ((sameBut_touched hgrows hreplaced hsave).read_iff (h.member c hc m hm)).2 (hmade m hm)
  have hcompiled (m : Path × String) (hm : m ∈ c.files) : Script.compiledText u root m.1 = text m.1 := by
    rw [Script.compiledText, hread m hm]
    rfl
  constructor
  · rw [(sameBut_save hgrows hreplaced hsave).read_iff (h.notMem_names_manifest c), htext, chunkContent, chunkContent,
      Script.body_congr fun module hmodule => ?_]
    obtain ⟨m, hm, rfl⟩ := List.mem_map.1 hmodule
    exact (hcompiled m hm).symm
  · intro m hm
    rw [hcompiled m hm]
    exact ⟨hread m hm, hgrows.file_iff.1 (node?_of_read (hmade m hm))⟩

end Saved

/-- Whatever the order, the bundle ends up in the directory. -/
theorem Publishes.stored (find : Bundle.find t₀ root specifiers = .ok b)
    (hex : ∀ f ∈ b.files, Digest.IsHexText f.2.record.hash)
    (noCollision : ∀ c ∈ chunker.chunks b.entrypoints b.files, ∀ c' ∈ chunker.chunks b.entrypoints b.files,
      Digest.hash c.bytes = Digest.hash c'.bytes → c.bytes = c'.bytes)
    (hw : t.WellLinked) (hdetached : Detached root dir (chunker.chunks b.entrypoints b.files) t)
    (h : Publishes root dir (chunker.chunks b.entrypoints b.files) t u) :
    Stored root dir (chunker.chunks b.entrypoints b.files) t u := by
  obtain ⟨made, written, hmake, hends, hsave⟩ := h
  have hsave := Manifest.write_of_save hsave
  have hgrows := grows_of_makeDirectories hw hmake
  have hdistinct := hdetached.distinct (fun c hc => Chunker.labelled_of_mem find hex hc) noCollision
  have hreplaced := hends.replaced (hgrows.wellLinked hw) (hdistinct.of_links hgrows.links)
    (Chunker.nodup_modules find chunker)
  have hchunk (c : Chunk) (hc : c ∈ chunker.chunks b.entrypoints b.files) :=
    chunk_of_save hgrows hreplaced hsave hdetached hc
  obtain ⟨s, hs⟩ := exists_followed find
  refine ⟨fun c hc => (hchunk c hc).1, fun c hc => Chunker.ascending_files hc hs.ascending, fun c hc => (hchunk c hc).2,
    read_of_write hreplaced.well hsave, fun entry hentry name hname => ?_, fun l bytes hl hother => ?_⟩
  · have hfiles : name ∈ (Manifest.ofChunks (chunker.chunks b.entrypoints b.files)).files :=
      Manifest.mem_files.2 ⟨entry, hentry, List.mem_cons.1 hname⟩
    obtain ⟨c, hc, rfl⟩ := (Chunker.mem_files_chunks find chunker).1 hfiles
    exact ⟨_, (hchunk c hc).1⟩
  · rw [(sameBut_touched hgrows hreplaced hsave).entry l (hdetached.not_touched hl hother), hgrows.file_iff]

/-- To write chunks in some order is one of the ways to publish them, and the manifest does not depend on it. -/
theorem publishes_of_order (hnodup : ((chunks.filterMap (·.entrypoint)).map (·.specifier)).Nodup)
    (hperm : chunks.Perm order) (h : write root dir order t = (u, .ok m)) :
    m = Manifest.ofChunks chunks ∧ Publishes root dir chunks t u := by
  obtain ⟨rfl, made, written, hmake, hends, hsave⟩ := publishes_of_write h
  rw [← Manifest.ofChunks_perm hperm hnodup] at hsave ⊢
  exact ⟨rfl, made, written, hmake, hends.of_perm hperm, hsave⟩

/-- Two ways to publish a bundle leave the same files in the directory. -/
theorem Stored.unique (h : Stored root dir chunks t u) (h' : Stored root dir chunks t u') {bytes : Bytes}
    (hl : Inside (place dir) l) (hfile : u.node? l = some (.file bytes)) : u'.node? l = some (.file bytes) := by
  by_cases hother : ∀ name ∈ outputs chunks, l ≠ place dir ++ [name]
  · rw [h'.other l bytes hl hother, ← h.other l bytes hl hother, hfile]
  push Not at hother
  obtain ⟨name, hname, rfl⟩ := hother
  rcases List.mem_cons.1 hname with rfl | hname
  · rw [← Project.place_manifest] at hfile ⊢
    rw [node?_of_read h'.manifest, ← hfile, node?_of_read h.manifest]
  · obtain ⟨c, hc, rfl⟩ := List.mem_map.1 hname
    -- both have the modules as they were before
    have htext (module : Path) (hmodule : module ∈ c.files.map Prod.fst) :
        Script.compiledText u' root module = Script.compiledText u root module := by
      obtain ⟨m, hm, rfl⟩ := List.mem_map.1 hmodule
      have heq := (h'.member c hc m hm).2.symm.trans (h.member c hc m hm).2
      exact Node.file.inj (Option.some.inj heq)
    rw [← c.place_fileName] at hfile ⊢
    rw [node?_of_read (h'.chunk c hc), ← hfile, node?_of_read (h.chunk c hc), chunkContent, chunkContent,
      Script.body_congr htext]

/-! ## Second names -/

theorem preamble_ne_nil (c : Chunk) : Script.preamble c ≠ [] := by
  have hopening : Utf8.encode Script.opening ≠ [] := by decide
  simp [Script.preamble, Utf8.encode_append, hopening]

/-- What has the file of a chunk as a second name gets the chunk. -/
theorem node?_of_shared (hw : t.WellLinked) (h : write root dir [c] t = (u, .ok m))
    (hl : l ∈ t.names (place (dir.join ⟨c.fileName⟩))) (hmanifest : l ∉ t.names (place (dir.join Manifest.fileName))) :
    ∃ text, u.node? l = some (.file (chunkContent c text)) := by
  obtain ⟨ready, full, text, ⟨hready, hlinks⟩, ⟨hfull, hlinks'⟩, -, -, hfill, hsave⟩ := parts_of_write_singleton hw h
  have hsame := sameBut_names hfull hsave
  rw [names_congr hlinks'] at hsame
  refine ⟨text, (hsame.entry l hmanifest).trans (node?_write_of_mem_names hready hfill ?_)⟩
  rwa [names_congr hlinks]

/-! ## Any order -/

/-- It does not matter in which order chunks are written, nor whether their writes overlap. When all of them succeed the
bundle is stored, with the same manifest, and the directory has the same files whichever way it was done. -/
theorem write_any_order (find : Bundle.find t₀ root specifiers = .ok b)
    (hex : ∀ f ∈ b.files, Digest.IsHexText f.2.record.hash)
    (noCollision : ∀ c ∈ chunker.chunks b.entrypoints b.files, ∀ c' ∈ chunker.chunks b.entrypoints b.files,
      Digest.hash c.bytes = Digest.hash c'.bytes → c.bytes = c'.bytes)
    (hw : t.WellLinked) (hdetached : Detached root dir (chunker.chunks b.entrypoints b.files) t) :
    (∀ order u m, (chunker.chunks b.entrypoints b.files).Perm order → write root dir order t = (u, .ok m) →
      m = Manifest.ofChunks (chunker.chunks b.entrypoints b.files) ∧
        Stored root dir (chunker.chunks b.entrypoints b.files) t u) ∧
    (∀ u, Publishes root dir (chunker.chunks b.entrypoints b.files) t u →
      Stored root dir (chunker.chunks b.entrypoints b.files) t u) ∧
    ∀ u u', Stored root dir (chunker.chunks b.entrypoints b.files) t u →
      Stored root dir (chunker.chunks b.entrypoints b.files) t u' → ∀ l bytes, Inside (place dir) l →
        (u.node? l = some (.file bytes) ↔ u'.node? l = some (.file bytes)) := by
  refine ⟨fun order u m hperm hwrite => ?_, fun u h => h.stored find hex noCollision hw hdetached,
    fun u u' h h' l bytes hl => ⟨h.unique h' hl, h'.unique h hl⟩⟩
  obtain ⟨hmanifest, hpublishes⟩ := publishes_of_order (Chunker.nodup_starts find chunker) hperm hwrite
  exact ⟨hmanifest, hpublishes.stored find hex noCollision hw hdetached⟩

section Script

open Project (scriptEntry scriptHash scriptRecord chunkName chunkWith bundleWith firstScript)

/-- The entrypoint that starts the script under another specifier. -/
def aliasEntry : Entrypoint := ⟨"./src/a", ⟨"src/a.js"⟩⟩

/-- The bundle of the script under both specifiers. -/
def aliasBundle : Bundle :=
  ⟨⟨"/w/build"⟩, [scriptEntry, aliasEntry], [(⟨"src/a.js"⟩, ⟨scriptRecord, ["./src/a", "./src/a.js"]⟩)]⟩

/-- The chunk of the other specifier. -/
def aliasChunk : Chunk := { chunkWith scriptHash with entrypoint := some aliasEntry }

/-- The page has a second name, which is that of the script's chunk. -/
def sharedPage : FileTree := firstScript.link ["w", "dist", "index.html"] ["w", "dist", chunkName]

theorem place_script : place (Path.join ⟨"/w/build"⟩ ⟨"src/a.js"⟩) = ["w", "build", "src", "a.js"] := by decide

/-- The script is found under both specifiers, and what is written for it can be written. -/
theorem found_firstScript :
    (Bundle.find firstScript ⟨"/w/build"⟩ ["./src/a.js", "./src/a"]).toOption = some aliasBundle ∧
      (firstScript.read (Path.join ⟨"/w/build"⟩ ⟨"src/a.js"⟩)).toOption = some [0x78] ∧
      (firstScript.write (Path.join ⟨"/w/dist"⟩ Manifest.fileName) []).toOption.isSome := by decide +kernel

theorem linkable_sharedPage : Project.Linkable [0x78] scriptHash chunkName sharedPage := by decide +kernel

/-- The chunk shares its file with the page, and with nothing else. -/
theorem names_sharedPage :
    (∀ group ∈ sharedPage.links, ∀ l ∈ group, sharedPage.node? l = some (.file [])) ∧
      (∀ name ∈ ["manifest.json", chunkName], ["w", "build", "src", "a.js"] ∉ sharedPage.names ["w", "dist", name]) ∧
      sharedPage.node? ["w", "dist", "index.html"] = some (.file []) ∧
      ["w", "dist", "index.html"] ∈ sharedPage.names ["w", "dist", chunkName] ∧
      ["w", "dist", "index.html"] ∉ sharedPage.names ["w", "dist", "manifest.json"] := by decide

theorem isHexText_scriptHash : Digest.IsHexText scriptHash := by
  have hhex : Digest.IsHex scriptHash := Project.names_script.2.2.2.1 ▸ Digest.isHex_toHex [0x78]
  exact hhex.text

theorem names_firstScript (l : Location) : firstScript.names l = [l] :=
  names_of_alone fun group hgroup => by cases hgroup

theorem wellLinked_firstScript : firstScript.WellLinked := fun group hgroup => by cases hgroup

/-- Both chunks have one name, and the script in them. -/
theorem alike_aliasChunk (hc : c ∈ [chunkWith scriptHash, aliasChunk]) :
    c.fileName = chunkName ∧ c.files = [(⟨"src/a.js"⟩, scriptHash)] := by
  rcases List.mem_pair.1 hc with rfl | rfl
  · exact ⟨Project.fileName_first, rfl⟩
  · exact ⟨(Chunk.fileName_congr rfl rfl rfl).trans Project.fileName_first, rfl⟩

theorem detached_aliasChunk :
    Detached ⟨"/w/build"⟩ ⟨"/w/dist"⟩ [chunkWith scriptHash, aliasChunk] firstScript := by
  refine ⟨fun c hc m hm => ?_, fun name _ l hl _ => List.mem_singleton.1 (names_firstScript _ ▸ hl)⟩
  rw [(alike_aliasChunk hc).2, List.mem_singleton] at hm
  rintro ⟨name, -, hmem⟩
  rw [hm, place_script, names_firstScript, Project.place_dist, List.mem_singleton] at hmem
  simp at hmem

theorem exists_write_aliasChunk : ∃ u, write ⟨"/w/build"⟩ ⟨"/w/dist"⟩ [aliasChunk, chunkWith scriptHash] firstScript =
    (u, .ok (Manifest.ofChunks [aliasChunk, chunkWith scriptHash])) := by
  obtain ⟨-, hread, hmanifest⟩ := found_firstScript
  obtain ⟨-, hpage, hopen, -⟩ := Project.linkable_scripts.1
  have halike (c : Chunk) (hc : c ∈ [aliasChunk, chunkWith scriptHash]) :=
    alike_aliasChunk (List.mem_pair.2 (List.mem_pair.1 hc).symm)
  have hthere := makeDirectories_of_read (isName_of_length (by decide)) (by decide) (eq_of_toOption hpage)
  refine exists_write (fun c hc => ?_) (fun c hc m hm => ?_) wellLinked_firstScript hthere
    ⟨_, write_of_isSome hmanifest []⟩
  · rw [(halike c hc).1]
    exact ⟨_, write_of_isSome hopen []⟩
  · rw [(halike c hc).2, List.mem_singleton] at hm
    rw [hm]
    exact ⟨_, eq_of_toOption hread⟩

/-- A script that is asked for under two specifiers has two chunks in one file. They are written in reverse. -/
theorem write_any_order_alias : ∃ u m,
    write ⟨"/w/build"⟩ ⟨"/w/dist"⟩ [aliasChunk, chunkWith scriptHash] firstScript = (u, .ok m) ∧
      Stored ⟨"/w/build"⟩ ⟨"/w/dist"⟩ [chunkWith scriptHash, aliasChunk] firstScript u := by
  obtain ⟨u, hwrite⟩ := exists_write_aliasChunk
  have hdetached : Detached ⟨"/w/build"⟩ ⟨"/w/dist"⟩
      (Chunker.perEntrypoint.chunks aliasBundle.entrypoints aliasBundle.files) firstScript := detached_aliasChunk
  have hall := write_any_order (eq_of_toOption found_firstScript.1)
    (List.forall_mem_singleton.2 isHexText_scriptHash) (fun c hc c' hc' _ => ?_) wellLinked_firstScript hdetached
  · exact ⟨u, _, hwrite, (hall.1 _ _ _ (List.Perm.swap _ _ _) hwrite).2⟩
  · rcases List.mem_pair.1 hc with rfl | rfl <;> rcases List.mem_pair.1 hc' with rfl | rfl <;> rfl

/-- When a page is linked to the file of a chunk, the chunk gets into the page. -/
theorem write_shared : ∃ u m,
    Bundle.find sharedPage ⟨"/w/build"⟩ ["./src/a.js"] = .ok (bundleWith scriptHash) ∧
      (∀ f ∈ (bundleWith scriptHash).files, Digest.IsHexText f.2.record.hash) ∧
      Chunker.perEntrypoint.chunks (bundleWith scriptHash).entrypoints (bundleWith scriptHash).files =
        [chunkWith scriptHash] ∧
      sharedPage.WellLinked ∧
      (∀ m ∈ (chunkWith scriptHash).files,
        ¬ Touched ⟨"/w/dist"⟩ [chunkWith scriptHash] sharedPage (place (Path.join ⟨"/w/build"⟩ m.1))) ∧
      write ⟨"/w/build"⟩ ⟨"/w/dist"⟩ [chunkWith scriptHash] sharedPage = (u, .ok m) ∧
      Inside (place ⟨"/w/dist"⟩) ["w", "dist", "index.html"] ∧
      (∀ name ∈ outputs [chunkWith scriptHash], ["w", "dist", "index.html"] ≠ place ⟨"/w/dist"⟩ ++ [name]) ∧
      sharedPage.node? ["w", "dist", "index.html"] = some (.file []) ∧
      u.node? ["w", "dist", "index.html"] ≠ some (.file []) := by
  obtain ⟨hlinked, hmember, hpage, hshared, hmanifest⟩ := names_sharedPage
  have houtputs : outputs [chunkWith scriptHash] = ["manifest.json", chunkName] := by
    rw [outputs, List.map_singleton, Project.fileName_first]
    rfl
  have hw : sharedPage.WellLinked := fun group hgroup l hl => ⟨[], hlinked group hgroup l hl⟩
  have hwrite := Project.write_changing linkable_sharedPage Project.fileName_first
  refine ⟨_, _, Project.find_changing linkable_sharedPage.1, List.forall_mem_singleton.2 isHexText_scriptHash, rfl, hw,
    List.forall_mem_singleton.2 ?_, hwrite, ?_, ?_, hpage, ?_⟩
  · rintro ⟨name, hname, hmem⟩
    rw [houtputs] at hname
    rw [place_script, Project.place_dist] at hmem
    exact hmember name hname hmem
  · rw [Project.place_dist]
    exact inside_name ["w", "dist"] "index.html"
  · rw [houtputs, Project.place_dist]
    decide
  · obtain ⟨text, htext⟩ := node?_of_shared (l := ["w", "dist", "index.html"]) hw hwrite
      (by rwa [Chunk.place_fileName, Project.fileName_first, Project.place_dist])
      (by rwa [Project.place_manifest, Project.place_dist])
    rw [htext, Ne, Option.some.injEq, Node.file.injEq, chunkContent]
    simp [preamble_ne_nil]

end Script

end Bundle
end Bundler
