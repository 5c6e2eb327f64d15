import Bundler.Proofs.Bundle.Drawn
import Bundler.Proofs.Bundle.Found
/-!
# Chunks that bring what they need

An entrypoint's chunk together with the chunks that it loads has the entrypoint's module and all that its
modules import, spelled as it is imported (`chunks_selfContained`). What reaches a file reaches its imports
(`Followed.import_mem`), so an import of a shared file is shared too and moves to the common chunk with it.
A module is looked up by its text, which is why the records have to list neat paths: then the paths of the
files are neat as well, and a file that is imported has the very text of the import.
-/

namespace Bundler

variable {t : FileTree} {root p : Path} {specifiers : List String} {b : Bundle} {f : Path × BundleFile}

namespace Bundle.Followed

variable {s : Search} {i : Path} {e : Entrypoint} (hs : Followed t root specifiers b s)
include hs

/-- The paths of the files are neat if the records list neat paths. -/
theorem neat (hneat : ∀ f ∈ b.files, ∀ i ∈ f.2.record.imports, i.Neat) (hf : f ∈ b.files) : f.1.Neat := by
  rcases hs.valid.listed (f.1, f.2.record) (hs.of_mem hf) with hm | ⟨-, importer, himporter, hlisted⟩
  · obtain ⟨e, he, hmodule⟩ := List.mem_map.1 hm
    exact hmodule ▸ neat_resolve (hs.resolved e he)
  · obtain ⟨g, hg, -, hrecord⟩ := hs.exists_mem himporter
    exact hneat g hg f.1 (hrecord ▸ hlisted)

/-- What a file imports is there, and what reaches the file reaches it. -/
theorem import_mem (hneat : ∀ f ∈ b.files, ∀ i ∈ f.2.record.imports, i.Neat) (hf : f ∈ b.files)
    (hi : i ∈ f.2.record.imports) : ∃ g ∈ b.files, g.1 = i ∧ f.2.entrypoints ⊆ g.2.entrypoints := by
  obtain ⟨-, entry, hentry, hsame⟩ := hs.valid.follows hs.done _ (hs.of_mem hf) i hi
  obtain ⟨g, hg, hkey, -⟩ := hs.exists_mem hentry
  rw [← hkey] at hsame
  refine ⟨g, hg, (hneat f hf i hi).eq_of_same (hs.neat hneat hg) hsame |>.symm, fun specifier hspecifier => ?_⟩
  obtain ⟨e, he, rfl, hamong⟩ := (hs.marked_iff hf).1 hspecifier
  refine (hs.marked_iff hg).2 ⟨e, he, rfl, ?_⟩
  obtain ⟨p, hchain, hp⟩ := mem_reachable_iff.1 hamong
  refine mem_reachable_iff.2 ⟨i, hchain.tail ?_, hsame⟩
  rw [Lists, importsOf_of_mem hs.valid.ascending (hs.of_mem hf) hp]
  exact hi

/-- An entrypoint reaches its module. -/
theorem module_mem (he : e ∈ b.entrypoints) : ∃ f ∈ b.files, f.1 = e.module ∧ e.specifier ∈ f.2.entrypoints := by
  obtain ⟨entry, hentry, hkey⟩ := List.mem_map.1 (hs.starts e he)
  obtain ⟨f, hf, hpath, -⟩ := hs.exists_mem hentry
  refine ⟨f, hf, hpath.trans hkey, (hs.marked_iff hf).2 ⟨e, he, rfl, ?_⟩⟩
  exact mem_reachable_iff.2 ⟨e.module, .refl, by rw [hpath, hkey]; rfl⟩

end Bundle.Followed

/-! ## Chunks -/

namespace Chunk

/-- The modules of a chunk. -/
def paths (c : Chunk) : List Path := c.files.map Prod.fst

/-- The modules that are there when a chunk starts: its own and those of the chunks that it loads. -/
def present (chunks : List Chunk) (c : Chunk) : List Path :=
  (c :: chunks.filter fun d => c.loads.contains d.fileName).flatMap paths

theorem mem_present {chunks : List Chunk} {c : Chunk} :
    p ∈ c.present chunks ↔ p ∈ c.paths ∨ ∃ d ∈ chunks, d.fileName ∈ c.loads ∧ p ∈ d.paths := by
  simp only [present, List.flatMap_cons, List.mem_append, List.mem_flatMap, List.mem_filter, List.contains_iff_mem,
    and_assoc]

end Chunk

/-- Every import that the record of a module lists is one of the modules. -/
def SelfContained (t : FileTree) (root : Path) (paths : List Path) : Prop :=
  ∀ p ∈ paths, ∃ r, Record.require t (root.join (Record.pathFor p)) = .ok r ∧ ∀ i ∈ r.imports, i ∈ paths

/-- With each file, modules have the files that are reached by all that reaches it. -/
def Upward (files : BundleFiles) (paths : List Path) : Prop :=
  ∀ p ∈ paths, ∃ f ∈ files, f.1 = p ∧ ∀ g ∈ files, f.2.entrypoints ⊆ g.2.entrypoints → g.1 ∈ paths

theorem selfContained_of_upward {paths : List Path} (h : Bundle.find t root specifiers = .ok b)
    (hneat : ∀ f ∈ b.files, ∀ i ∈ f.2.record.imports, i.Neat) (hup : Upward b.files paths) :
    SelfContained t root paths := by
  obtain ⟨s, hs⟩ := Bundle.exists_followed h
  intro p hp
  obtain ⟨f, hf, rfl, hall⟩ := hup p hp
  refine ⟨f.2.record, Bundle.find_record h hf, fun i hi => ?_⟩
  obtain ⟨g, hg, rfl, hsub⟩ := hs.import_mem hneat hf hi
  exact hall g hg hsub

namespace Chunker

variable {entrypoints : List Entrypoint} {files : BundleFiles} {chosen : BundleFile → Bool} {c d : Chunk}
  {e : Entrypoint} {marked other : BundleFile}

theorem mem_paths_members : p ∈ (members files chosen).map Prod.fst ↔ ∃ f ∈ files, chosen f.2 = true ∧ f.1 = p := by
  simp only [members, List.map_map, List.mem_map, List.mem_filter, Function.comp_apply, and_assoc]

theorem reaches_iff : reaches e marked = true ↔ e.specifier ∈ marked.entrypoints := by
  rw [reaches, List.contains_iff_mem]

theorem isShared_of_subset (h : isShared marked = true) (hnodup : marked.entrypoints.Nodup)
    (hsub : marked.entrypoints ⊆ other.entrypoints) : isShared other = true := by
  have hle := (List.subperm_of_subset hnodup hsub).length_le
  rw [isShared, decide_eq_true_iff] at h ⊢
  omega

/-! ## One chunk for each entrypoint -/

theorem upward_separate (h : c ∈ separate entrypoints files) (chunks : List Chunk) :
    Upward files (c.present chunks) := by
  obtain ⟨e, -, rfl⟩ := List.mem_map.1 h
  have hpresent {p : Path} : p ∈ Chunk.present chunks ⟨some e, members files (reaches e), []⟩ ↔
      ∃ f ∈ files, reaches e f.2 = true ∧ f.1 = p := by
    rw [Chunk.mem_present, Chunk.paths, mem_paths_members]
    exact or_iff_left fun ⟨_, _, hload, _⟩ => absurd hload List.not_mem_nil
  intro p hp
  obtain ⟨f, hf, hreaches, rfl⟩ := hpresent.1 hp
  exact ⟨f, hf, rfl, fun g hg hsub => hpresent.2 ⟨g, hg, reaches_iff.2 (hsub (reaches_iff.1 hreaches)), rfl⟩⟩

/-! ## A common chunk -/

theorem mem_paths_commonChunk : p ∈ (commonChunk files).paths ↔ ∃ f ∈ files, isShared f.2 = true ∧ f.1 = p :=
  mem_paths_members

theorem mem_paths_ownChunk : p ∈ (ownChunk files e).paths ↔
    ∃ f ∈ files, (e.specifier ∈ f.2.entrypoints ∧ isShared f.2 = false) ∧ f.1 = p := by
  rw [Chunk.paths, ownChunk, mem_paths_members]
  simp only [Bool.and_eq_true, reaches_iff, Bool.not_eq_true']

/-- A chunk loads the common one or nothing. -/
theorem mem_loads_ownChunk {name : String} : name ∈ (ownChunk files e).loads ↔
    name = (commonChunk files).fileName ∧ ∃ f ∈ files, e.specifier ∈ f.2.entrypoints ∧ isShared f.2 = true := by
  rw [ownChunk]
  simp only [List.mem_ite_nil_right, List.mem_singleton, List.any_eq_true, Bool.and_eq_true, reaches_iff, and_comm]

theorem upward_common (hnodup : ∀ f ∈ files, f.2.entrypoints.Nodup) : Upward files (commonChunk files).paths := by
  intro p hp
  obtain ⟨f, hf, hshared, rfl⟩ := mem_paths_commonChunk.1 hp
  exact ⟨f, hf, rfl, fun g hg hsub =>
    mem_paths_commonChunk.2 ⟨g, hg, isShared_of_subset hshared (hnodup f hf) hsub, rfl⟩⟩

theorem upward_split (hnodup : ∀ f ∈ files, f.2.entrypoints.Nodup) :
    Upward files ((ownChunk files e).present (split entrypoints files)) := by
  -- whatever is loaded, the common chunk is
  have hcommon {name : String} {p : Path} (hload : name ∈ (ownChunk files e).loads)
      (hp : p ∈ (commonChunk files).paths) :
      p ∈ (ownChunk files e).present (split entrypoints files) :=
    Chunk.mem_present.2 (.inr ⟨_, mem_split.2 (.inr rfl), (mem_loads_ownChunk.1 hload).1 ▸ hload, hp⟩)
  intro p hp
  rcases Chunk.mem_present.1 hp with hown | ⟨d, hd, hload, hp⟩
  · obtain ⟨f, hf, ⟨hreached, -⟩, rfl⟩ := mem_paths_ownChunk.1 hown
    refine ⟨f, hf, rfl, fun g hg hsub => ?_⟩
    cases hshared : isShared g.2 with
    | true =>
      exact hcommon (mem_loads_ownChunk.2 ⟨rfl, g, hg, hsub hreached, hshared⟩)
        (mem_paths_commonChunk.2 ⟨g, hg, hshared, rfl⟩)
    | false => exact Chunk.mem_present.2 (.inl (mem_paths_ownChunk.2 ⟨g, hg, ⟨hsub hreached, hshared⟩, rfl⟩))
  rcases mem_split.1 hd with ⟨e', he', rfl⟩ | rfl
  · obtain ⟨f, hf, ⟨hreached, -⟩, rfl⟩ := mem_paths_ownChunk.1 hp
    refine ⟨f, hf, rfl, fun g hg hsub => ?_⟩
    cases hshared : isShared g.2 with
    | true => exact hcommon hload (mem_paths_commonChunk.2 ⟨g, hg, hshared, rfl⟩)
    | false =>
      have hpaths := mem_paths_ownChunk.2 ⟨g, hg, ⟨hsub hreached, hshared⟩, rfl⟩
      exact Chunk.mem_present.2 (.inr ⟨_, hd, hload, hpaths⟩)
  · obtain ⟨f, hf, rfl, hall⟩ := upward_common hnodup p hp
    exact ⟨f, hf, rfl, fun g hg hsub => hcommon hload (hall g hg hsub)⟩

/-! ## Every chunker -/

theorem upward_present (hnodup : ∀ f ∈ files, f.2.entrypoints.Nodup) (chunker : Chunker)
    (h : c ∈ chunker.chunks entrypoints files) (hstart : c.entrypoint = some e) :
    Upward files (c.present (chunker.chunks entrypoints files)) := by
  rcases chunks_eq entrypoints files chunker with heq | heq <;> rw [heq] at h ⊢
  · exact upward_separate h _
  · rcases mem_split.1 h with ⟨e', -, rfl⟩ | rfl
    · exact upward_split hnodup
    · cases hstart

/-- What an entrypoint reaches is there when its chunk starts. -/
theorem mem_present_of_reached (chunker : Chunker) (h : c ∈ chunker.chunks entrypoints files)
    (hstart : c.entrypoint = some e) {f : Path × BundleFile} (hf : f ∈ files)
    (hreached : e.specifier ∈ f.2.entrypoints) :
    f.1 ∈ c.present (chunker.chunks entrypoints files) := by
  rw [Chunk.mem_present]
  rcases chunks_eq entrypoints files chunker with heq | heq <;> rw [heq] at h ⊢
  · obtain ⟨e', -, rfl⟩ := List.mem_map.1 h
    cases hstart
    exact .inl (mem_paths_members.2 ⟨f, hf, reaches_iff.2 hreached, rfl⟩)
  · rcases mem_split.1 h with ⟨e', -, rfl⟩ | rfl
    · cases hstart
      cases hshared : isShared f.2 with
      | true =>
        exact .inr ⟨_, mem_split.2 (.inr rfl), mem_loads_ownChunk.2 ⟨rfl, f, hf, hreached, hshared⟩,
          mem_paths_commonChunk.2 ⟨f, hf, hshared, rfl⟩⟩
      | false => exact .inl (mem_paths_ownChunk.2 ⟨f, hf, ⟨hreached, hshared⟩, rfl⟩)
    · cases hstart

/-- With the chunks that it loads, the chunk of every entrypoint has the entrypoint's module and whatever is
imported, spelled as it is imported. The common chunk needs no other one. -/
theorem chunks_selfContained (chunker : Chunker) (h : Bundle.find t root specifiers = .ok b)
    (hneat : ∀ f ∈ b.files, ∀ i ∈ f.2.record.imports, i.Neat) :
    (∀ e ∈ b.entrypoints, ∃ c ∈ chunker.chunks b.entrypoints b.files, c.entrypoint = some e) ∧
    ∀ c ∈ chunker.chunks b.entrypoints b.files,
      (∀ e, c.entrypoint = some e → e.module ∈ c.present (chunker.chunks b.entrypoints b.files) ∧
        SelfContained t root (c.present (chunker.chunks b.entrypoints b.files))) ∧
      (c.entrypoint = none → SelfContained t root c.paths) := by
  obtain ⟨s, hs⟩ := Bundle.exists_followed h
  have hnodup : ∀ f ∈ b.files, f.2.entrypoints.Nodup := fun f hf => hs.nodup hf
  refine ⟨fun e he => exists_chunk chunker he, fun c hc => ⟨fun e he => ⟨?_, ?_⟩, fun hnone => ?_⟩⟩
  · obtain ⟨f, hf, hpath, hreached⟩ := hs.module_mem ((drawn_of_mem hc).start e he)
    rw [← hpath]
    exact mem_present_of_reached chunker hc he hf hreached
  · exact selfContained_of_upward h hneat (upward_present hnodup chunker hc he)
  · rw [eq_commonChunk chunker hc hnone]
    exact selfContained_of_upward h hneat (upward_common hnodup)

/-- The bundle of the rings with an entrypoint for each script. -/
def ringBundle : Bundle :=
  let entrypoints : List Entrypoint := [⟨"./x", ⟨"x.js"⟩⟩, ⟨"./y", ⟨"y.js"⟩⟩, ⟨"./z.js", ⟨"z.js"⟩⟩]
  ⟨⟨"b"⟩, entrypoints, Bundle.markFiles Bundle.ringRecords entrypoints⟩

theorem find_ringBundle : Bundle.find Bundle.rings ⟨"b"⟩ ["./x", "./y", "./z.js"] = .ok ringBundle :=
  FileTree.eq_of_toOption (by decide)

theorem neat_ringBundle : ∀ f ∈ ringBundle.files, ∀ i ∈ f.2.record.imports, i.Neat :=
  fun f hf => Bundle.neat_ringRecords (f.1, f.2.record) (Bundle.of_mem_markFiles hf).1

theorem shared_ringBundle : ringBundle.files.any (fun f => isShared f.2) = true := by decide

theorem paths_commonChunk_ringBundle : (commonChunk ringBundle.files).paths = [⟨"x.js"⟩, ⟨"y.js"⟩] := by decide

/-- Two scripts that import each other go into the common chunk, which the entrypoints of both load. -/
theorem chunks_selfContained_rings :
    Bundle.find Bundle.rings ⟨"b"⟩ ["./x", "./y", "./z.js"] = .ok ringBundle ∧
      (∀ f ∈ ringBundle.files, ∀ i ∈ f.2.record.imports, i.Neat) ∧
      (commonChunk ringBundle.files).paths = [⟨"x.js"⟩, ⟨"y.js"⟩] ∧
      SelfContained Bundle.rings ⟨"b"⟩ (commonChunk ringBundle.files).paths ∧
      ∀ e ∈ ringBundle.entrypoints, ∃ c ∈ splitCommon.chunks ringBundle.entrypoints ringBundle.files,
        c.entrypoint = some e ∧ e.module ∈ c.present (splitCommon.chunks ringBundle.entrypoints ringBundle.files) ∧
        SelfContained Bundle.rings ⟨"b"⟩ (c.present (splitCommon.chunks ringBundle.entrypoints ringBundle.files)) := by
  have hcommon : commonChunk ringBundle.files ∈ splitCommon.chunks ringBundle.entrypoints ringBundle.files := by
    rw [chunks, if_pos shared_ringBundle]
    exact mem_split.2 (.inr rfl)
  obtain ⟨hall, hclosed⟩ := chunks_selfContained splitCommon find_ringBundle neat_ringBundle
  refine ⟨find_ringBundle, neat_ringBundle, paths_commonChunk_ringBundle, (hclosed _ hcommon).2 rfl, fun e he => ?_⟩
  obtain ⟨c, hc, hstart⟩ := hall e he
  exact ⟨c, hc, hstart, (hclosed c hc).1 e hstart⟩

end Chunker

end Bundler
