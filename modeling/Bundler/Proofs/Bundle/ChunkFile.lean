import Bundler.Project
import Bundler.Proofs.Bundle.ChunkName
import Bundler.Proofs.Bundle.Drawn
import Bundler.Proofs.Bundle.Search
import Bundler.Proofs.Bundle.Write
/-!
# What the name of a chunk does not tell

A build that succeeds writes a file for each of its chunks (`exists_writing`), and the file holds the compiled texts of
the chunk's members (`Writing.file_eq`). Chunks of one name agree in all but these texts,
so their files are the same exactly when the texts are (`file_eq_iff`). The name comes from the digests
of the sources and does not tell what a transpiler made of them: another transpiler puts another file
under the same name (`other_file`).
-/

namespace Bundler

open FileTree

/-! ## Members -/

/-- The digests of a chunk's members are those of sources. -/
def Chunk.Recorded (c : Chunk) : Prop := ∀ m ∈ c.files, ∃ source, m.2 = (Digest.hash source).toHex

/-- The name of a common chunk is the name of a script. -/
theorem Chunk.fileName_common {c : Chunk} (h : c.entrypoint = none) :
    '\x00' ∉ c.fileName.toList ∧ ".js".toList <:+ c.fileName.toList := by
  have hname : c.fileName = "common" ++ "." ++ c.hash.toHex ++ ".js" := by rw [fileName, stem, h]; rfl
  rw [hname]
  simp only [String.toList_append]
  refine ⟨?_, List.suffix_append _ _⟩
  simp only [List.mem_append, not_or]
  exact ⟨⟨⟨by decide, by decide⟩, nul_notMem_hex (Digest.isHex_toHex _).text⟩, by decide⟩

/-- The chunks of a bundle have the texts that names are made for, if their digests are in hexadecimal. -/
theorem Chunk.Drawn.labelled {t : FileTree} {root : Path} {specifiers : List String} {b : Bundle} {c : Chunk}
    (find : Bundle.find t root specifiers = .ok b) (h : c.Drawn b.entrypoints b.files)
    (hex : ∀ m ∈ c.files, Digest.IsHexText m.2) : c.Labelled where
  hash := hex
  path m hm := by
    obtain ⟨f, hf, rfl⟩ := h.files m hm
    exact Bundle.find_path find hf
  start e he := Bundle.find_start find (h.start e he)
  load name hname := by
    obtain ⟨common, hnone, rfl⟩ := h.loads name hname
    exact fileName_common hnone

theorem Chunker.labelled_of_mem {t : FileTree} {root : Path} {specifiers : List String} {b : Bundle} {c : Chunk}
    {chunker : Chunker} (find : Bundle.find t root specifiers = .ok b)
    (hex : ∀ f ∈ b.files, Digest.IsHexText f.2.record.hash) (h : c ∈ chunker.chunks b.entrypoints b.files) :
    c.Labelled := by
  have hdrawn := drawn_of_mem h
  refine hdrawn.labelled find fun m hm => ?_
  obtain ⟨f, hf, rfl⟩ := hdrawn.files m hm
  exact hex f hf

/-- The records of a chunk's modules could be read. -/
theorem Bundle.read_records {t : FileTree} {root : Path} {specifiers : List String} {b : Bundle} {c : Chunk}
    {chunker : Chunker} (hfind : find t root specifiers = .ok b) (hc : c ∈ chunker.chunks b.entrypoints b.files) :
    ∀ m ∈ c.files, ∃ bytes, t.read (root.join (Record.pathFor m.1)) = .ok bytes := by
  intro m hm
  obtain ⟨f, hf, rfl⟩ := (Chunker.drawn_of_mem hc).files m hm
  obtain ⟨bytes, hread, -⟩ := Record.read_of_require (find_record hfind hf)
  exact ⟨bytes, hread⟩

theorem Chunk.Drawn.named_of_hex {t : FileTree} {root : Path} {specifiers : List String} {b : Bundle} {c : Chunk}
    (find : Bundle.find t root specifiers = .ok b) (h : c.Drawn b.entrypoints b.files)
    (hex : ∀ m ∈ c.files, Digest.IsHex m.2) : c.Named := by
  have hlabelled := h.labelled find fun m hm => (hex m hm).text
  exact ⟨hex, hlabelled.path, hlabelled.start, hlabelled.load⟩

theorem Chunk.Drawn.named {t : FileTree} {root : Path} {specifiers : List String} {b : Bundle} {c : Chunk}
    (find : Bundle.find t root specifiers = .ok b) (h : c.Drawn b.entrypoints b.files) (recorded : c.Recorded) :
    c.Named := by
  apply h.named_of_hex find
  intro m hm
  obtain ⟨source, hsource⟩ := recorded m hm
  rw [hsource]
  exact Digest.isHex_toHex source

/-! ## Files -/

namespace Bundle

variable {root dir : Path} {t t' : FileTree}

/-- What a write does that succeeds. -/
theorem parts_of_write {chunks : List Chunk} {manifest : Manifest} (h : write root dir chunks t = (t', .ok manifest)) :
    manifest = Manifest.ofChunks chunks ∧ ∃ made written, t.makeDirectories dir = (made, .ok ()) ∧
      writeChunks root dir chunks made = (written, .ok ()) ∧
      manifest.save written (dir.join Manifest.fileName) = .ok t' := by
  unfold write at h
  split at h
  · cases h
  · next made hmake =>
    split at h
    · cases h
    · next written hwrite =>
      dsimp only at h
      split at h
      · cases h
      · next saved hsave =>
        cases h
        exact ⟨rfl, made, written, hmake, hwrite, hsave⟩

theorem write_of_parts {chunks : List Chunk} {made written saved : FileTree}
    (hmake : t.makeDirectories dir = (made, .ok ()))
    (hwrite : writeChunks root dir chunks made = (written, .ok ()))
    (hsave : (Manifest.ofChunks chunks).save written (dir.join Manifest.fileName) = .ok saved) :
    write root dir chunks t = (saved, .ok (Manifest.ofChunks chunks)) := by
  rw [write, hmake]
  dsimp only
  rw [hwrite]
  dsimp only
  rw [hsave]

theorem write_of_error {chunks : List Chunk} {made written : FileTree} {e : LinkError}
    (hmake : t.makeDirectories dir = (made, .ok ()))
    (hwrite : writeChunks root dir chunks made = (written, .error e)) :
    write root dir chunks t = (written, .error e) := by
  rw [write, hmake]
  dsimp only
  rw [hwrite]

/-- Chunks are written when their directory can be made and each of them and the manifest can be written. -/
theorem write_ok_iff {chunks : List Chunk} : (∃ t' manifest, write root dir chunks t = (t', .ok manifest)) ↔
    ∃ made written saved, t.makeDirectories dir = (made, .ok ()) ∧
      writeChunks root dir chunks made = (written, .ok ()) ∧
      (Manifest.ofChunks chunks).save written (dir.join Manifest.fileName) = .ok saved := by
  constructor
  · rintro ⟨t', manifest, h⟩
    obtain ⟨rfl, made, written, hmake, hwrite, hsave⟩ := parts_of_write h
    exact ⟨made, written, t', hmake, hwrite, hsave⟩
  · rintro ⟨made, written, saved, hmake, hwrite, hsave⟩
    exact ⟨saved, _, write_of_parts hmake hwrite hsave⟩

end Bundle

/-! ## Builds -/

namespace Project

variable {p p' : Project} {programs programs' : Programs} {cancelled cancelled' : Bool} {t t' final : FileTree}

/-- A chunk as a build writes it that succeeds. -/
structure Writing (p : Project) (programs : Programs) (cancelled : Bool) (t : FileTree) where
  report : CompileReport
  bundle : Bundle
  earlier : List Chunk
  chunk : Chunk
  later : List Chunk
  compiled : FileTree
  made : FileTree
  /-- The tree that the modules are read from: the files of all chunks are empty. -/
  ready : FileTree
  before : FileTree
  after : FileTree
  compile : p.compile programs cancelled t = (compiled, .ok report)
  link : ∃ final linked, p.link compiled = (final, .ok linked)
  find : Bundle.find compiled p.buildRoot p.entrypoints = .ok bundle
  make : compiled.makeDirectories p.dist = (made, .ok ())
  chunks : p.chunker.chunks bundle.entrypoints bundle.files = earlier ++ chunk :: later
  empty : Bundle.openAll p.dist (earlier ++ chunk :: later) made = (ready, earlier ++ chunk :: later, [])
  closeEarlier : Bundle.closeAll p.dist (earlier.map (.whole ready p.buildRoot)) ready = (before, [])
  close : Bundle.closeAll p.dist [.whole ready p.buildRoot chunk] before = (after, [])

/-- A link succeeds when it finds its bundle and writes the chunks. -/
theorem link_ok_iff : (∃ t' linked, p.link t = (t', .ok linked)) ↔
    ∃ bundle, Bundle.find t p.buildRoot p.entrypoints = .ok bundle ∧ ∃ t' manifest,
      Bundle.write p.buildRoot p.dist (p.chunker.chunks bundle.entrypoints bundle.files) t = (t', .ok manifest) := by
  constructor
  · rintro ⟨t', linked, h⟩
    unfold link at h
    dsimp only at h
    split at h
    · cases h
    · next bundle hfind =>
      split at h
      · cases h
      · next written manifest hwrite => exact ⟨bundle, hfind, written, manifest, hwrite⟩
  · rintro ⟨bundle, hfind, written, manifest, hwrite⟩
    refine ⟨(p.link t).1, ⟨manifest, bundle.files.length, (p.chunker.chunks bundle.entrypoints bundle.files).length⟩,
      Prod.ext rfl ?_⟩
    rw [link, hfind]
    dsimp only
    rw [hwrite]

/-- A build that succeeds writes each chunk of its bundle. -/
theorem exists_writing {report : CompileReport} {linked : LinkReport}
    (h : p.build programs cancelled t = (final, some report, .ok linked)) :
    ∃ compiled bundle, p.compile programs cancelled t = (compiled, .ok report) ∧
      Bundle.find compiled p.buildRoot p.entrypoints = .ok bundle ∧
      ∀ c ∈ p.chunker.chunks bundle.entrypoints bundle.files, ∃ w : p.Writing programs cancelled t, w.chunk = c := by
  unfold build at h
  split at h
  · cases h
  · next compiled _ hcompile =>
    split at h
    · cases h
    · next hlink =>
      cases h
      obtain ⟨bundle, hfind, hwrites⟩ := link_ok_iff.1 ⟨_, _, hlink⟩
      obtain ⟨made, written, -, hmake, hchunks, -⟩ := Bundle.write_ok_iff.1 hwrites
      refine ⟨compiled, bundle, hcompile, hfind, fun c hc => ?_⟩
      obtain ⟨earlier, later, hsplit⟩ := List.append_of_mem hc
      rw [hsplit] at hchunks
      obtain ⟨ready, hempty, -, hclose⟩ := Bundle.writeChunks_ok_iff.1 hchunks
      rw [List.map_append] at hclose
      obtain ⟨before, hearlier, hrest⟩ := Bundle.closeAll_append hclose
      obtain ⟨after, hown, -⟩ := Bundle.closeAll_first hrest
      exact ⟨⟨_, bundle, earlier, c, later, compiled, made, ready, before, after, hcompile, ⟨_, _, hlink⟩, hfind, hmake,
        hsplit, hempty, hearlier, hown⟩, rfl⟩

namespace Writing

/-- What is at the place of the chunk's file. -/
def file (w : p.Writing programs cancelled t) : Option Node := w.after.node? (place (p.dist.join ⟨w.chunk.fileName⟩))

/-- The compiled text of a module. -/
def text (w : p.Writing programs cancelled t) (module : Path) : Bytes := Script.compiledText w.ready p.buildRoot module

/-- The modules of the chunk, each in a function. -/
def body (w : p.Writing programs cancelled t) : Bytes := Script.body w.text (w.chunk.files.map Prod.fst)

theorem file_eq (w : p.Writing programs cancelled t) :
    (∀ m ∈ w.chunk.files, w.ready.read (p.buildRoot.join m.1) = .ok (w.text m.1)) ∧
      w.file = some (.file (Bundle.chunkContent w.chunk w.text)) := by
  obtain ⟨hwhole, hwrite⟩ := Bundle.closeAll_singleton_iff.1 w.close
  obtain ⟨hread, hbytes⟩ := Bundle.Draft.bytes_whole hwhole
  rw [hbytes] at hwrite
  exact ⟨hread, node?_write hwrite⟩

theorem named (w : p.Writing programs cancelled t) (recorded : w.chunk.Recorded) : w.chunk.Named := by
  have hmem : w.chunk ∈ p.chunker.chunks w.bundle.entrypoints w.bundle.files := by
    rw [w.chunks]
    exact List.mem_append_right _ List.mem_cons_self
  exact (Chunker.drawn_of_mem hmem).named w.find recorded

end Writing

/-! ## One script, two transpilers -/

/-- A project with one script. -/
def oneScript (transpiler : Transpiler) : Project :=
  { default ⟨"/w"⟩ with
    sources := [⟨"src"⟩]
    entrypoints := ["./src/a.js"]
    transpilers := ⟨[], transpiler⟩
    concurrency := 1 }

/-- Makes nothing of a source. -/
def blank : Transpiler := .custom fun _ dst t =>
  match t.write dst [] with
  | .error _ => (t, .failed "unwritable")
  | .ok t => (t, .done)

/-- No programs. -/
def noPrograms : Programs := fun _ _ => .error .notFound

/-- The directory before it is built. -/
def unbuilt : FileTree :=
  ⟨[(["w"], .directory), (["w", "src"], .directory), (["w", "src", "a.js"], .file [0x78])], [], []⟩

/-- The digest of the script. -/
def scriptHash : String := "3ae7d805f6789a6402acb70ad4096a85a56bf6804eaf25c0493ac697548d30b5"

/-- The record of the script. -/
def scriptRecord : Record := ⟨⟨"build/src/a.js"⟩, scriptHash, []⟩

/-- The entrypoint that starts the script. -/
def scriptEntry : Entrypoint := ⟨"./src/a.js", ⟨"src/a.js"⟩⟩

/-- The bundle of the script. -/
def scriptBundle : Bundle := ⟨⟨"/w/build"⟩, [scriptEntry], [(⟨"src/a.js"⟩, ⟨scriptRecord, ["./src/a.js"]⟩)]⟩

/-- The chunk of the script. -/
def scriptChunk : Chunk := ⟨some scriptEntry, [(⟨"src/a.js"⟩, scriptHash)], []⟩

/-- The name of the chunk. -/
def chunkName : String := "a.761ad95520818b950beefa9c3226120d252ad2a49bfbe1bbe16ad275d32a40a5.js"

/-- The directory with a compiled text of the script. -/
def compiledTo (text : Bytes) : FileTree :=
  ⟨(["w", "build", "src", "a.js.meta.cbor"], .file scriptRecord.encode) ::
    (["w", "build", "src", "a.js"], .file text) ::
    (["w", "build", "src"], .directory) :: (["w", "build"], .directory) :: unbuilt.entries, [], []⟩

/-- The directory with an empty directory for bundles. -/
def withDist (text : Bytes) : FileTree := (compiledTo text).put ["w", "dist"] .directory

/-- The directory with an empty file for the chunk. -/
def withFile (text : Bytes) : FileTree := (withDist text).put ["w", "dist", chunkName] (.file [])

/-- The file of the chunk with a compiled text. -/
def scriptFile (text : Bytes) : Bytes := Bundle.chunkContent scriptChunk fun _ => text

/-- The directory with the chunk written. -/
def withChunk (text : Bytes) : FileTree := (withFile text).put ["w", "dist", chunkName] (.file (scriptFile text))

theorem compile_oneScript :
    (((oneScript .copy).compile noPrograms false unbuilt).1,
        ((oneScript .copy).compile noPrograms false unbuilt).2.toOption) = (compiledTo [0x78], some ⟨1, 0⟩) ∧
      (((oneScript blank).compile noPrograms false unbuilt).1,
        ((oneScript blank).compile noPrograms false unbuilt).2.toOption) = (compiledTo [], some ⟨1, 0⟩) := by
  decide +kernel

theorem names_script :
    Path.join ⟨"/w"⟩ ⟨"build"⟩ = ⟨"/w/build"⟩ ∧ Path.join ⟨"/w"⟩ ⟨"dist"⟩ = ⟨"/w/dist"⟩ ∧
      place (Path.join ⟨"/w/dist"⟩ ⟨chunkName⟩) = ["w", "dist", chunkName] ∧
      scriptHash = (Digest.hash [0x78]).toHex ∧ scriptChunk.fileName = chunkName := by decide +kernel

/-- The script is found, and what is written for it can be written. -/
theorem found_script : ∀ text ∈ [[0x78], []],
    (Bundle.find (compiledTo text) ⟨"/w/build"⟩ ["./src/a.js"]).toOption = some scriptBundle ∧
      (((compiledTo text).makeDirectories ⟨"/w/dist"⟩).1, ((compiledTo text).makeDirectories ⟨"/w/dist"⟩).2.toOption) =
        (withDist text, some ()) ∧
      ((withDist text).write (Path.join ⟨"/w/dist"⟩ ⟨chunkName⟩) []).toOption = some (withFile text) ∧
      ((withFile text).read (Path.join ⟨"/w/build"⟩ ⟨"src/a.js"⟩)).toOption = some text ∧
      ((withFile text).write (Path.join ⟨"/w/dist"⟩ ⟨chunkName⟩) []).toOption.isSome ∧
      ((Manifest.empty.register "./src/a.js" chunkName []).save (withChunk text)
        (Path.join ⟨"/w/dist"⟩ Manifest.fileName)).toOption.isSome := by decide +kernel

theorem buildRoot_oneScript (transpiler : Transpiler) : (oneScript transpiler).buildRoot = ⟨"/w/build"⟩ :=
  names_script.1

theorem dist_oneScript (transpiler : Transpiler) : (oneScript transpiler).dist = ⟨"/w/dist"⟩ := names_script.2.1

theorem text_script {text : Bytes} (htext : text ∈ [[0x78], []]) :
    Script.compiledText (withFile text) ⟨"/w/build"⟩ ⟨"src/a.js"⟩ = text := by
  obtain ⟨-, -, -, hread, -, -⟩ := found_script text htext
  exact Script.compiledText_of_read (eq_of_toOption hread)

/-- The bytes that are written for the script. -/
theorem bytes_script {text : Bytes} (htext : text ∈ [[0x78], []]) :
    Bundle.chunkContent scriptChunk (Script.compiledText (withFile text) ⟨"/w/build"⟩) = scriptFile text := by
  rw [scriptFile, Bundle.chunkContent_eq_iff rfl rfl]
  simp only [scriptChunk, List.map_cons, List.map_nil, Script.body, List.flatMap_singleton, text_script htext]

theorem open_script {text : Bytes} (htext : text ∈ [[0x78], []]) :
    Bundle.openAll ⟨"/w/dist"⟩ [scriptChunk] (withDist text) = (withFile text, [scriptChunk], []) := by
  obtain ⟨-, -, hempty, -, -, -⟩ := found_script text htext
  refine Bundle.openAll_of_write ?_
  rw [names_script.2.2.2.2]
  exact eq_of_toOption hempty

theorem close_script {text : Bytes} (htext : text ∈ [[0x78], []]) :
    Bundle.closeAll ⟨"/w/dist"⟩ [.whole (withFile text) ⟨"/w/build"⟩ scriptChunk] (withFile text) =
      (withChunk text, []) := by
  obtain ⟨-, -, -, hread, hrefill, -⟩ := found_script text htext
  have hwhole : (Bundle.Draft.whole (withFile text) ⟨"/w/build"⟩ scriptChunk).failure = none := by
    refine Bundle.Draft.whole_of_read (List.forall_mem_singleton.2 ?_)
    rw [text_script htext]
    exact eq_of_toOption hread
  obtain ⟨u, hu⟩ := Option.isSome_iff_exists.1 hrefill
  rw [Bundle.closeAll_singleton_iff, (Bundle.Draft.bytes_whole hwhole).2, bytes_script htext]
  refine ⟨hwhole, ?_⟩
  show (withFile text).write (Path.join ⟨"/w/dist"⟩ ⟨scriptChunk.fileName⟩) _ = _
  rw [names_script.2.2.2.2, write_of_write (eq_of_toOption hu), names_script.2.2.1]
  rfl

theorem write_script {text : Bytes} (htext : text ∈ [[0x78], []]) :
    Bundle.writeChunks ⟨"/w/build"⟩ ⟨"/w/dist"⟩ [scriptChunk] (withDist text) = (withChunk text, .ok ()) := by
  rw [Bundle.writeChunks_eq, open_script htext]
  dsimp only
  rw [List.map_singleton, close_script htext]
  rfl

theorem link_script (transpiler : Transpiler) {text : Bytes} (htext : text ∈ [[0x78], []]) :
    ∃ t' linked, (oneScript transpiler).link (compiledTo text) = (t', .ok linked) := by
  obtain ⟨hfind, hmake, -, -, -, hsave⟩ := found_script text htext
  obtain ⟨saved, hsaved⟩ := Option.isSome_iff_exists.1 hsave
  have hmanifest : Manifest.ofChunks [scriptChunk] = Manifest.empty.register "./src/a.js" chunkName [] := by
    rw [← names_script.2.2.2.2]
    rfl
  refine link_ok_iff.2 ⟨scriptBundle, ?_, Bundle.write_ok_iff.2 ⟨withDist text, withChunk text, saved, ?_, ?_, ?_⟩⟩
  · rw [buildRoot_oneScript]
    exact eq_of_toOption hfind
  · rw [dist_oneScript]
    exact pair_of_toOption hmake
  · show Bundle.writeChunks _ _ [scriptChunk] _ = _
    rw [buildRoot_oneScript, dist_oneScript, write_script htext]
  · show (Manifest.ofChunks [scriptChunk]).save _ _ = _
    rw [dist_oneScript, hmanifest]
    exact eq_of_toOption hsaved

/-- The build of the script with a transpiler that makes this text of it. -/
def scriptWriting (transpiler : Transpiler) (text : Bytes) (htext : text ∈ [[0x78], []])
    (compiles : (oneScript transpiler).compile noPrograms false unbuilt = (compiledTo text, .ok ⟨1, 0⟩)) :
    (oneScript transpiler).Writing noPrograms false unbuilt where
  report := ⟨1, 0⟩
  bundle := scriptBundle
  earlier := []
  chunk := scriptChunk
  later := []
  compiled := compiledTo text
  made := withDist text
  ready := withFile text
  before := withFile text
  after := withChunk text
  compile := compiles
  link := link_script transpiler htext
  find := by
    rw [buildRoot_oneScript]
    exact eq_of_toOption (found_script text htext).1
  make := by
    rw [dist_oneScript]
    exact pair_of_toOption (found_script text htext).2.1
  chunks := rfl
  empty := by
    rw [dist_oneScript]
    exact open_script htext
  closeEarlier := rfl
  close := by
    rw [buildRoot_oneScript, dist_oneScript]
    exact close_script htext

theorem body_scriptWriting (transpiler : Transpiler) (text : Bytes) (htext : text ∈ [[0x78], []])
    (compiles : (oneScript transpiler).compile noPrograms false unbuilt = (compiledTo text, .ok ⟨1, 0⟩)) :
    (scriptWriting transpiler text htext compiles).body = Script.wrap ⟨"src/a.js"⟩ text := by
  show Script.body (Script.compiledText (withFile text) (oneScript transpiler).buildRoot) [⟨"src/a.js"⟩] = _
  rw [buildRoot_oneScript, Script.body, List.flatMap_singleton, text_script htext]

/-! ## What the name is worth -/

namespace Writing

/-- Chunks of one name, from whatever builds, have the same members, start the same module and load
the same files. Their files are the same exactly when the compiled texts of the members are, each in
its function. -/
theorem file_eq_iff (w : p.Writing programs cancelled t) (w' : p'.Writing programs' cancelled' t')
    (recorded : w.chunk.Recorded) (recorded' : w'.chunk.Recorded) (name : w.chunk.fileName = w'.chunk.fileName)
    (noCollision : Digest.hash w.chunk.bytes = Digest.hash w'.chunk.bytes → w.chunk.bytes = w'.chunk.bytes) :
    w.chunk.files = w'.chunk.files ∧
      w.chunk.entrypoint.map (·.module) = w'.chunk.entrypoint.map (·.module) ∧ w.chunk.loads = w'.chunk.loads ∧
      (∀ m ∈ w.chunk.files, w.ready.read (p.buildRoot.join m.1) = .ok (w.text m.1) ∧
        w'.ready.read (p'.buildRoot.join m.1) = .ok (w'.text m.1)) ∧
      (∃ bytes bytes', w.file = some (.file bytes) ∧ w'.file = some (.file bytes')) ∧
      (w.file = w'.file ↔ w.body = w'.body) := by
  obtain ⟨hfiles, hstart, hloads⟩ := Chunk.eq_of_fileName (w.named recorded) (w'.named recorded') name noCollision
  obtain ⟨hread, hfile⟩ := w.file_eq
  obtain ⟨hread', hfile'⟩ := w'.file_eq
  refine ⟨hfiles, hstart, hloads, fun m hm => ⟨hread m hm, hread' m (hfiles ▸ hm)⟩, ⟨_, _, hfile, hfile'⟩, ?_⟩
  rw [hfile, hfile', Option.some.injEq, Node.file.injEq]
  exact Bundle.chunkContent_eq_iff hstart hloads

/-- One source has two files under one name when it is compiled in two ways. -/
theorem other_file :
    ∃ (w : (oneScript .copy).Writing noPrograms false unbuilt)
      (w' : (oneScript blank).Writing noPrograms false unbuilt),
      w.chunk.fileName = w'.chunk.fileName ∧ w.file ≠ w'.file := by
  have copies := pair_of_toOption compile_oneScript.1
  have blanks := pair_of_toOption compile_oneScript.2
  have recorded : scriptChunk.Recorded := fun m hm => by
    rw [List.mem_singleton.1 hm]
    exact ⟨[0x78], names_script.2.2.2.1⟩
  refine ⟨scriptWriting .copy [0x78] (by decide) copies, scriptWriting blank [] (by decide) blanks, rfl,
    fun hfile => ?_⟩
  obtain ⟨-, -, -, -, -, hiff⟩ := file_eq_iff (scriptWriting .copy [0x78] (by decide) copies)
    (scriptWriting blank [] (by decide) blanks) recorded recorded rfl fun _ => rfl
  have hbody := hiff.1 hfile
  rw [body_scriptWriting, body_scriptWriting] at hbody
  simp [Script.wrap] at hbody

end Writing
end Project
end Bundler
