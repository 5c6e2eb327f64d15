import Bundler.Bundle.Chunk
/-!
# What chunks are made of

The chunks of a bundle are one for each entrypoint, and perhaps a common one that others load (`chunks_eq`,
`mem_split`). Whichever chunker made them, they are `Drawn` from the files and entrypoints of the bundle
(`drawn_of_mem`).
-/

namespace Bundler

/-- What a chunk is made of: files of a bundle, one of its entrypoints, and a common chunk to load. -/
structure Chunk.Drawn (entrypoints : List Entrypoint) (files : BundleFiles) (c : Chunk) : Prop where
  files : ∀ m ∈ c.files, ∃ f ∈ files, m = (f.1, f.2.record.hash)
  start : ∀ e, c.entrypoint = some e → e ∈ entrypoints
  loads : ∀ name ∈ c.loads, ∃ common : Chunk, common.entrypoint = none ∧ name = common.fileName

namespace Chunker

variable {entrypoints : List Entrypoint} {files : BundleFiles} {c : Chunk} {e : Entrypoint}

theorem mem_members (chosen : BundleFile → Bool) :
    ∀ m ∈ members files chosen, ∃ f ∈ files, m = (f.1, f.2.record.hash) := by
  intro m hm
  obtain ⟨f, hf, rfl⟩ := List.mem_map.1 hm
  exact ⟨f, (List.mem_filter.1 hf).1, rfl⟩

/-- All that an entrypoint reaches. -/
def wholeChunk (files : BundleFiles) (e : Entrypoint) : Chunk := ⟨some e, members files (reaches e), []⟩

theorem separate_eq : separate entrypoints files = entrypoints.map (wholeChunk files) := rfl

theorem drawn_separate (h : c ∈ separate entrypoints files) : c.Drawn entrypoints files := by
  obtain ⟨e, he, rfl⟩ := List.mem_map.1 h
  refine ⟨mem_members _, fun e' he' => ?_, fun name hname => absurd hname List.not_mem_nil⟩
  cases he'
  exact he

/-! ## A common chunk -/

/-- What several entrypoints reach. -/
def commonChunk (files : BundleFiles) : Chunk := ⟨none, members files isShared, []⟩

/-- What one entrypoint alone reaches. -/
def ownChunk (files : BundleFiles) (e : Entrypoint) : Chunk where
  entrypoint := some e
  files := members files fun file => reaches e file && ! isShared file
  loads := if files.any (fun (_, file) => reaches e file && isShared file) then [(commonChunk files).fileName] else []

theorem split_eq : split entrypoints files = entrypoints.map (ownChunk files) ++ [commonChunk files] := rfl

theorem mem_split :
    c ∈ split entrypoints files ↔ (∃ e ∈ entrypoints, c = ownChunk files e) ∨ c = commonChunk files := by
  rw [split_eq, List.mem_append, List.mem_map, List.mem_singleton]
  simp only [eq_comm]

theorem drawn_ownChunk (he : e ∈ entrypoints) : (ownChunk files e).Drawn entrypoints files := by
  refine ⟨mem_members fun file => reaches e file && ! isShared file, fun e' he' => ?_, fun name hname => ?_⟩
  · cases he'
    exact he
  · rw [ownChunk, List.mem_ite_nil_right, List.mem_singleton] at hname
    exact ⟨commonChunk files, rfl, hname.2⟩

theorem drawn_commonChunk : (commonChunk files).Drawn entrypoints files :=
  ⟨mem_members _, nofun, fun _ hname => absurd hname List.not_mem_nil⟩

/-! ## Every chunker -/

theorem chunks_eq (entrypoints : List Entrypoint) (files : BundleFiles) (chunker : Chunker) :
    chunker.chunks entrypoints files = separate entrypoints files ∨
      chunker.chunks entrypoints files = split entrypoints files := by
  cases chunker with
  | perEntrypoint => exact .inl rfl
  | splitCommon =>
    rw [chunks]
    split
    · exact .inr rfl
    · exact .inl rfl

theorem drawn_of_mem {chunker : Chunker} (h : c ∈ chunker.chunks entrypoints files) : c.Drawn entrypoints files := by
  rcases chunks_eq entrypoints files chunker with heq | heq <;> rw [heq] at h
  · exact drawn_separate h
  · rcases mem_split.1 h with ⟨e, he, rfl⟩ | rfl
    · exact drawn_ownChunk he
    · exact drawn_commonChunk

theorem exists_members {chunker : Chunker} (h : c ∈ chunker.chunks entrypoints files) :
    ∃ chosen, c.files = members files chosen := by
  rcases chunks_eq entrypoints files chunker with heq | heq <;> rw [heq] at h
  · obtain ⟨e, -, rfl⟩ := List.mem_map.1 h
    exact ⟨reaches e, rfl⟩
  · rcases mem_split.1 h with ⟨e, -, rfl⟩ | rfl
    · exact ⟨fun file => reaches e file && ! isShared file, rfl⟩
    · exact ⟨isShared, rfl⟩

/-- The members of a chunk are in path order, as the files of the bundle are. -/
theorem ascending_files {chunker : Chunker} (h : c ∈ chunker.chunks entrypoints files)
    (hasc : Sorted.Ascending Path.compare files) : Sorted.Ascending Path.compare c.files := by
  obtain ⟨chosen, heq⟩ := exists_members h
  rw [heq, Sorted.Ascending, members, List.map_map]
  exact hasc.sublist (List.filter_sublist.map Prod.fst)

theorem exists_chunk (chunker : Chunker) (he : e ∈ entrypoints) :
    ∃ c ∈ chunker.chunks entrypoints files, c.entrypoint = some e := by
  rcases chunks_eq entrypoints files chunker with heq | heq <;> rw [heq]
  · exact ⟨_, List.mem_map_of_mem he, rfl⟩
  · exact ⟨_, mem_split.2 (.inl ⟨e, he, rfl⟩), rfl⟩

/-- A chunk that starts nothing is the common one. -/
theorem eq_commonChunk (chunker : Chunker) (h : c ∈ chunker.chunks entrypoints files) (hstart : c.entrypoint = none) :
    c = commonChunk files := by
  rcases chunks_eq entrypoints files chunker with heq | heq <;> rw [heq] at h
  · obtain ⟨e, -, rfl⟩ := List.mem_map.1 h
    cases hstart
  · rcases mem_split.1 h with ⟨e, -, rfl⟩ | rfl
    · cases hstart
    · rfl

end Chunker
end Bundler
