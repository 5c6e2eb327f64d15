import Bundler.Proofs.Bundle.ChunkFile
/-!
# Writing chunks over a bundle

However far the writing of chunks comes, it changes nothing but the files of these chunks (`Rewritten`). Each
of them is as it was, is the whole new file, or is a torn one that ends before a module that cannot be
read (`Left`): a chunk's file is emptied before its modules are read. Between two steps a file may hold anything while
it is open (`Rewriting`); when all are closed, this is all that is left (`Apart.rewritten_of_reaches`).
-/

namespace Bundler

open FileTree

variable {root dir : Path} {c : Chunk} {chunks : List Chunk} {t u : FileTree} {l : Location} {content : Bytes}
  {paths : List Path}

/-! ## Names of chunks -/

theorem Path.mem_splitExtension {name : String} {x : Char} (h : x ∈ (splitExtension name).1.toList) :
    x ∈ name.toList := by
  unfold splitExtension at h
  dsimp only at h
  split at h
  · exact h
  · exact h
  next first stem _ hcut =>
  rw [String.toList_ofList, List.mem_reverse] at h
  have hmem : x ∈ name.toList.reverse.dropWhile (· ≠ '.') := hcut ▸ List.mem_cons_of_mem first h
  exact List.mem_reverse.1 ((List.dropWhile_sublist _).subset hmem)

theorem Path.slash_notMem_stem {p : Path} {s : String} (h : p.stem? = some s) : '/' ∉ s.toList := by
  unfold stem? fileName? at h
  split at h
  · next name hlast =>
    cases h
    exact fun hmem => slash_notMem_of_name (List.mem_of_getLast? hlast) (mem_splitExtension hmem)
  · cases h

namespace Chunk

theorem slash_notMem_fileName (c : Chunk) : '/' ∉ c.fileName.toList := by
  have hstem : '/' ∉ c.stem.toList := by
    unfold stem
    cases hname : c.entrypoint.bind fun e => e.module.stem? with
    | none => decide
    | some s =>
      obtain ⟨e, -, hs⟩ := Option.bind_eq_some_iff.1 hname
      exact Path.slash_notMem_stem hs
  have hhash : '/' ∉ c.hash.toHex.toList := fun hmem => by
    have := Hex.isDigit_of_mem hmem
    revert this
    decide
  simp only [fileName, String.toList_append, List.mem_append, not_or]
  exact ⟨⟨⟨hstem, by decide⟩, hhash⟩, by decide⟩

theorem isName_fileName (c : Chunk) : IsName c.fileName := by
  refine isName_of_length ?_
  have hdot : ".".toList.length = 1 := by decide
  have hscript : ".js".toList.length = 3 := by decide
  simp only [fileName, String.toList_append, List.length_append]
  omega

theorem fileName_ne_manifest (c : Chunk) : c.fileName ≠ Manifest.fileName.text := by
  intro heq
  have hend : ".js".toList <:+ Manifest.fileName.text.toList := by
    rw [← heq, fileName, String.toList_append]
    exact List.suffix_append _ _
  revert hend
  decide

/-- Where the file of a chunk is. -/
theorem place_fileName (dir : Path) (c : Chunk) : place (dir.join ⟨c.fileName⟩) = place dir ++ [c.fileName] :=
  place_join_name dir c.isName_fileName c.slash_notMem_fileName

end Chunk

/-! ## Writing chunks over a bundle -/

namespace Bundle

/-- What is written lies apart from what is read: files in the directory have no other names, and no module lies
there. -/
structure Apart (root dir : Path) (chunks : List Chunk) (t : FileTree) : Prop where
  single : ∀ l, place dir <+: l → t.Alone l
  outside : ∀ c ∈ chunks, ∀ m ∈ c.files, ¬ place dir <+: place (root.join m.1)

/-- The place of a chunk's file. -/
def Written (dir : Path) (chunks : List Chunk) (l : Location) : Prop := ∃ c ∈ chunks, place (dir.join ⟨c.fileName⟩) = l

/-- What can be left of a file when chunks are written up to some point. -/
inductive Left (root dir : Path) (chunks : List Chunk) (t u : FileTree) (l : Location) (content : Bytes) : Prop
  /-- The file is as it was. -/
  | kept (h : u.node? l = some (.file content))
  /-- The file is the one of a chunk. -/
  | whole (c : Chunk) (hc : c ∈ chunks) (hplace : place (dir.join ⟨c.fileName⟩) = l)
      (h : u.node? l = some (.file (chunkContent c (Script.compiledText t root))))
  /-- The file is the one of a chunk up to a module that cannot be read. -/
  | torn (c : Chunk) (hc : c ∈ chunks) (hplace : place (dir.join ⟨c.fileName⟩) = l) (before after : List Path)
      (module : Path) (hpaths : c.files.map Prod.fst = before ++ module :: after)
      (hunread : ∀ source, t.read (root.join module) ≠ .ok source)
      (h : u.node? l = some (.file (Script.preamble c ++ Script.body (Script.compiledText t root) before)))

/-- A tree in which some of the chunks were written. -/
structure Rewritten (root dir : Path) (chunks : List Chunk) (t u : FileTree) : Prop where
  same : SameBut (Written dir chunks) t u
  left : ∀ l content, t.node? l = some (.file content) → Left root dir chunks t u l content

theorem Left.of_eq {v : FileTree} (h : Left root dir chunks t u l content) (heq : v.node? l = u.node? l) :
    Left root dir chunks t v l content := by
  cases h with
  | kept h => exact .kept (heq.trans h)
  | whole c hc hplace h => exact .whole c hc hplace (heq.trans h)
  | torn c hc hplace before after module hpaths hunread h =>
    exact .torn c hc hplace before after module hpaths hunread (heq.trans h)

theorem Written.inside (h : Written dir chunks l) : place dir <+: l := by
  obtain ⟨c, -, rfl⟩ := h
  rw [Chunk.place_fileName]
  exact List.prefix_append _ _

/-- The manifest is no chunk. -/
theorem not_written_manifest : ¬ Written dir chunks (place (dir.join Manifest.fileName)) := by
  rintro ⟨c, -, hplace⟩
  have hname : IsName Manifest.fileName.text := isName_of_length (by decide)
  rw [Chunk.place_fileName, place_join_name dir hname (by decide)] at hplace
  exact c.fileName_ne_manifest (List.singleton_inj.1 (List.append_cancel_left hplace))

/-- Chunks are being written over a bundle. -/
structure Rewriting (root dir : Path) (chunks : List Chunk) (t : FileTree) (s : Press) : Prop where
  sound : s.Sound (Written dir chunks) root dir chunks t
  left : ∀ l content, t.node? l = some (.file content) →
    (∃ d ∈ s.drafts, place (d.path dir) = l) ∨ Left root dir chunks t s.tree l content

namespace Apart

variable (ha : Apart root dir chunks t)
include ha

theorem confined : Confined (Written dir chunks) dir chunks t := by
  intro c hc u v content hu hwrite
  have hchunk : Written dir chunks (place (dir.join ⟨c.fileName⟩)) := ⟨c, hc, rfl⟩
  exact (sameBut_write hwrite (hu.alone (ha.single _ hchunk.inside))).mono fun l hl => hl ▸ hchunk

/-- What a closed file has left. -/
theorem left_of_bytes {d : Draft} {sources : List (Path × Bytes)}
    (h : d.Gathered (Written dir chunks) root t sources) (hd : d.chunk ∈ chunks) (hread : d.unread = [])
    (hnode : u.node? (place (d.path dir)) = some (.file d.bytes)) :
    Left root dir chunks t u (place (d.path dir)) content := by
  have hmodule {module : Path} (hm : module ∈ d.chunk.files.map Prod.fst) :
      ¬ Written dir chunks (place (root.join module)) := by
    obtain ⟨m, hmem, rfl⟩ := List.mem_map.1 hm
    exact fun hwritten => ha.outside d.chunk hd m hmem hwritten.inside
  have hsources (hsub : ∀ m ∈ sources, m.1 ∈ d.chunk.files.map Prod.fst) :
      Script.wrapped sources = Script.body (Script.compiledText t root) (sources.map Prod.fst) :=
    Script.wrapped_eq_body fun m hm => Script.compiledText_of_read (h.kept m hm (hmodule (hsub m hm)))
  cases hfailure : d.failure with
  | none =>
    have hpaths := h.going hfailure
    rw [hread, List.append_nil] at hpaths
    refine .whole d.chunk hd rfl ?_
    rw [hnode, Draft.bytes, hfailure, h.text, hsources fun m hm => hpaths ▸ List.mem_map_of_mem hm, hpaths]
    rfl
  | some e =>
    obtain ⟨-, module, after, hpaths, hunread⟩ := h.stopped e hfailure
    refine .torn d.chunk hd rfl (sources.map Prod.fst) after module hpaths (hunread (hmodule ?_)) ?_
    · rw [hpaths]
      exact List.mem_append_right _ List.mem_cons_self
    · rw [hnode, Draft.bytes, hfailure, h.text, hsources fun m hm => ?_]
      rw [hpaths]
      exact List.mem_append_left _ (List.mem_map_of_mem hm)

end Apart

namespace Rewriting

variable {s s' : Press} (ha : Apart root dir chunks t)
include ha

/-- Writing a chunk's file leaves all other files. -/
theorem node?_of_write (h : Rewriting root dir chunks t s) (hc : c ∈ chunks)
    (hwrite : s.tree.write (dir.join ⟨c.fileName⟩) content = .ok u) (hl : place (dir.join ⟨c.fileName⟩) ≠ l) :
    u.node? l = s.tree.node? l := by
  have hchunk : Written dir chunks (place (dir.join ⟨c.fileName⟩)) := ⟨c, hc, rfl⟩
  exact (sameBut_write hwrite (h.sound.same.alone (ha.single _ hchunk.inside))).entry l (Ne.symm hl)

theorem step (h : Rewriting root dir chunks t s) (hstep : Press.Step root dir s s') :
    Rewriting root dir chunks t s' := by
  refine ⟨h.sound.step ha.confined hstep, fun l content hl => ?_⟩
  have hbefore := h.left l content hl
  cases hstep with
  | @opened c rest u turn empties =>
    by_cases hplace : place (dir.join ⟨c.fileName⟩) = l
    · exact .inl ⟨.new c, List.mem_append_right _ List.mem_cons_self, hplace⟩
    have hc := (h.sound.waits_cons turn).1
    refine hbefore.imp (fun ⟨d, hd, hopen⟩ => ⟨d, List.mem_append_left _ hd, hopen⟩) fun hleft => ?_
    exact hleft.of_eq (h.node?_of_write ha hc empties hplace)
  | refused turn refuses => exact hbefore
  | skipped turn failed => exact hbefore
  | read turn reads =>
    refine hbefore.imp_left fun ⟨d, hd, hopen⟩ => ?_
    obtain ⟨d', hd', hchunk⟩ := Draft.exists_open_of_read turn reads hd
    exact ⟨d', hd', by rwa [Draft.path, hchunk]⟩
  | @flushed d part u turn early writes =>
    by_cases hplace : place (d.path dir) = l
    · exact .inl ⟨d, turn, hplace⟩
    · exact hbefore.imp_right fun hleft => hleft.of_eq (h.node?_of_write ha (h.sound.drafts d turn).1 writes hplace)
  | @closed d rest u turn done writes =>
    obtain ⟨⟨hchunk, -, sources, hgathered⟩, -⟩ := h.sound.drafts_cons turn
    by_cases hplace : place (d.path dir) = l
    · subst hplace
      exact .inr (ha.left_of_bytes hgathered hchunk done (node?_write writes))
    obtain ⟨open', hd, hopen⟩ | hleft := hbefore
    · rcases List.mem_cons.1 (turn.mem_iff.1 hd) with rfl | hd
      · exact absurd hopen hplace
      · exact .inl ⟨open', hd, hopen⟩
    · exact .inr (hleft.of_eq (h.node?_of_write ha hchunk writes hplace))
  | @stuck d rest e turn done refuses =>
    -- a file that could be opened can be written
    obtain ⟨⟨-, ⟨u, hopen⟩, -⟩, -⟩ := h.sound.drafts_cons turn
    obtain ⟨v, hwrite⟩ := (SameBut.refl (fun _ => False) s.tree).exists_write hopen d.bytes
    rw [hwrite] at refuses
    cases refuses

end Rewriting

/-- Chunks may be written in any order and beside each other, and go on being written after one has failed. Whenever no
file is open, this is what is left. -/
theorem Apart.rewritten_of_reaches {s : Press} (ha : Apart root dir chunks t)
    (h : Press.Reaches root dir (.start chunks t) s) (hclosed : s.drafts = []) :
    Rewritten root dir chunks t s.tree := by
  have hstart : Rewriting root dir chunks t (.start chunks t) :=
    ⟨.start _ root dir chunks t, fun l content hl => .inr (.kept hl)⟩
  have hend := h.induct (fun _ _ h hstep => Rewriting.step ha h hstep) hstart
  refine ⟨hend.sound.same, fun l content hl => ?_⟩
  obtain ⟨d, hd, -⟩ | hleft := hend.left l content hl
  · rw [hclosed] at hd
    cases hd
  · exact hleft

end Bundle
end Bundler
