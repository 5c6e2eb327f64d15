import Bundler.Proofs.Bundle.Drawn
import Bundler.Proofs.Bundle.Found
import Bundler.Proofs.Json.Takes
/-!
# The manifest and the chunks it names

A manifest is read back as it was written (`decode_toJson`). The manifest of a bundle's chunks names exactly their
files (`mem_files_chunks`), the common one too: it is there only if a file is shared, and then an entrypoint that
reaches the file loads it.
-/

namespace Bundler

/-! ## Reading what was written -/

namespace Manifest

theorem ofEntries_entries (m : Manifest) : ofEntries m.entries = m := by
  obtain ⟨entries, ascending⟩ := m
  simp only [ofEntries, Sorted.ofList_of_ascending ascending]

theorem takes_entry (level : Nat) (entry : ManifestEntry) :
    Json.Takes entryShape.read (Utf8.encode (ManifestEntry.toJson level entry)) entry := by
  have hfile := (Json.takes_text "a string" entry.file).into
    (fun (entry : ManifestEntry) file => { entry with file }) ⟨"", []⟩
  have hloads : Json.Takes (Json.list (Json.text "a string"))
      (Utf8.encode (Json.prettyArray (level + 1) (entry.loads.map Json.quote))) entry.loads :=
    Json.takes_list fun name _ => ⟨Json.takes_text _ name, Json.begins_quote name⟩
  have hloads := hloads.into (fun (entry : ManifestEntry) loads => { entry with loads }) ⟨entry.file, []⟩
  exact Json.takes_record (.field rfl List.not_mem_nil hfile (.field rfl (by decide) hloads (.done (by decide))))
    (List.cons_ne_nil _ _)

/-- A manifest is read back as it was written. -/
theorem decode_toJson (m : Manifest) : decode (Utf8.encode m.toJson) = .ok m := by
  have hentries : Json.Takes (Json.map entryShape.read)
      (Utf8.encode (Json.prettyObject 1 (m.entries.map fun e => (e.1, ManifestEntry.toJson 2 e.2)))) m.entries :=
    Json.takes_map fun e _ => takes_entry 2 e.2
  have hvalue := hentries.into (fun _ entries => ofEntries entries) empty
  rw [ofEntries_entries] at hvalue
  exact (Json.takes_record (.field rfl List.not_mem_nil hvalue (.done (by decide))) (List.cons_ne_nil _ _)).decode

/-! ## The entries -/

variable {chunks : List Chunk} {name : String}

/-- Adds the entrypoint that a chunk starts. -/
def add (m : Manifest) (c : Chunk) : Manifest :=
  match c.entrypoint with
  | some e => m.register e.specifier c.fileName c.loads
  | none => m

theorem ofChunks_eq (chunks : List Chunk) : ofChunks chunks = chunks.foldl add empty := rfl

theorem mem_register {m : Manifest} {specifier file : String} {loads : List String} {entry : String × ManifestEntry}
    (h : ∀ entry ∈ m.entries, entry.1 ≠ specifier) :
    entry ∈ (m.register specifier file loads).entries ↔ entry = (specifier, ⟨file, loads⟩) ∨ entry ∈ m.entries := by
  apply Sorted.mem_insert
  apply Sorted.find?_eq_none
  exact fun entry hentry heq => h entry hentry (Std.LawfulEqCmp.compare_eq_iff_eq.1 heq).symm

/-- The manifest of some chunks, if no two of them start one entrypoint. -/
theorem mem_ofChunks {entry : String × ManifestEntry}
    (h : ((chunks.filterMap (·.entrypoint)).map (·.specifier)).Nodup) : entry ∈ (ofChunks chunks).entries ↔
      ∃ c ∈ chunks, ∃ e, c.entrypoint = some e ∧ entry = (e.specifier, ⟨c.fileName, c.loads⟩) := by
  suffices step : ∀ m : Manifest,
      (∀ entry ∈ m.entries, entry.1 ∉ (chunks.filterMap (·.entrypoint)).map (·.specifier)) →
        (entry ∈ (chunks.foldl add m).entries ↔ entry ∈ m.entries ∨
          ∃ c ∈ chunks, ∃ e, c.entrypoint = some e ∧ entry = (e.specifier, ⟨c.fileName, c.loads⟩)) by
    rw [ofChunks_eq, step empty fun _ hmem => absurd hmem List.not_mem_nil]
    exact or_iff_right List.not_mem_nil
  induction chunks with
  | nil => simp
  | cons c chunks ih =>
    intro m hnew
    rw [List.foldl_cons]
    cases hstart : c.entrypoint with
    | none =>
      have hadd : m.add c = m := by rw [add, hstart]
      rw [List.filterMap_cons_none hstart] at h hnew
      rw [hadd, ih h m hnew]
      simp [hstart]
    | some e =>
      have hadd : m.add c = m.register e.specifier c.fileName c.loads := by rw [add, hstart]
      rw [List.filterMap_cons_some hstart, List.map_cons] at h hnew
      rw [List.nodup_cons] at h
      have hmem {entry : String × ManifestEntry} : entry ∈ (m.add c).entries ↔
          entry = (e.specifier, ⟨c.fileName, c.loads⟩) ∨ entry ∈ m.entries := by
        rw [hadd]
        exact mem_register fun entry hentry heq => hnew entry hentry (heq ▸ List.mem_cons_self)
      rw [ih h.2 _ fun entry hentry => ?_]
      · rw [hmem]
        simp [hstart, or_left_comm, or_assoc]
      · rcases hmem.1 hentry with rfl | hentry
        · exact h.1
        · exact fun hmem => hnew entry hentry (List.mem_cons_of_mem _ hmem)

/-- The manifest of some chunks does not depend on their order, if no two of them start one entrypoint. -/
theorem ofChunks_perm {chunks' : List Chunk} (hperm : chunks.Perm chunks')
    (h : ((chunks.filterMap (·.entrypoint)).map (·.specifier)).Nodup) : ofChunks chunks = ofChunks chunks' := by
  have h' := ((hperm.filterMap _).map _).nodup_iff.1 h
  have hentries : (ofChunks chunks).entries = (ofChunks chunks').entries := by
    refine Sorted.eq_of_ascending (ofChunks chunks).ascending (ofChunks chunks').ascending fun entry => ?_
    rw [mem_ofChunks h, mem_ofChunks h']
    exact exists_congr fun c => and_congr_left fun _ => hperm.mem_iff
  rcases hm : ofChunks chunks with ⟨entries, ascending⟩
  rcases hm' : ofChunks chunks' with ⟨entries', ascending'⟩
  rw [hm, hm'] at hentries
  cases hentries
  rfl

theorem get?_of_mem {m : Manifest} {specifier : String} {entry : ManifestEntry} (h : (specifier, entry) ∈ m.entries) :
    m.get? specifier = some entry :=
  Sorted.find?_of_mem m.ascending h Std.ReflCmp.compare_self

theorem mem_files {m : Manifest} :
    name ∈ m.files ↔ ∃ entry ∈ m.entries, name = entry.2.file ∨ name ∈ entry.2.loads := by
  rw [files, Sorted.mem_keys, List.mem_flatMap]
  simp only [List.mem_cons]

end Manifest

/-! ## The names of chunks -/

namespace Chunker

variable {entrypoints : List Entrypoint} {files : BundleFiles} {c : Chunk} {name : String} {t : FileTree} {root : Path}
  {specifiers : List String} {b : Bundle}

/-- There is a common chunk only if a file is shared. -/
theorem chunks_cases (entrypoints : List Entrypoint) (files : BundleFiles) (chunker : Chunker) :
    chunker.chunks entrypoints files = separate entrypoints files ∨
      chunker.chunks entrypoints files = split entrypoints files ∧ ∃ f ∈ files, isShared f.2 = true := by
  cases chunker with
  | perEntrypoint => exact .inl rfl
  | splitCommon =>
    rw [chunks]
    split
    · next hshared => exact .inr ⟨rfl, List.any_eq_true.1 hshared⟩
    · exact .inl rfl

theorem starts_separate : (separate entrypoints files).filterMap (·.entrypoint) = entrypoints := by
  rw [separate, List.filterMap_map]
  exact List.filterMap_some

theorem starts_split : (split entrypoints files).filterMap (·.entrypoint) = entrypoints := by
  rw [split_eq, List.filterMap_append, List.filterMap_map]
  show List.filterMap some entrypoints ++ [] = _
  rw [List.filterMap_some, List.append_nil]

/-- Each chunk starts an entrypoint of its own, or none. -/
theorem starts_chunks (chunker : Chunker) :
    (chunker.chunks entrypoints files).filterMap (·.entrypoint) = entrypoints := by
  rcases chunks_eq entrypoints files chunker with heq | heq <;> rw [heq]
  · exact starts_separate
  · exact starts_split

theorem nodup_starts (find : Bundle.find t root specifiers = .ok b) (chunker : Chunker) :
    (((chunker.chunks b.entrypoints b.files).filterMap (·.entrypoint)).map (·.specifier)).Nodup := by
  rw [starts_chunks]
  exact (Bundle.exact_of_find find).nodup_specifiers

/-- No module is in a chunk twice. -/
theorem nodup_modules (find : Bundle.find t root specifiers = .ok b) (chunker : Chunker) :
    ∀ c ∈ chunker.chunks b.entrypoints b.files, (c.files.map Prod.fst).Nodup := by
  obtain ⟨s, hs⟩ := Bundle.exists_followed find
  exact fun c hc => Sorted.nodup_of_ascending (ascending_files hc hs.ascending)

/-- Only the common chunk is loaded. -/
theorem mem_loads (hc : c ∈ split entrypoints files) (h : name ∈ c.loads) : name = (commonChunk files).fileName := by
  rcases mem_split.1 hc with ⟨e, -, rfl⟩ | rfl
  · rw [ownChunk, List.mem_ite_nil_right, List.mem_singleton] at h
    exact h.2
  · exact absurd h List.not_mem_nil

/-- The common chunk is loaded by an entrypoint's chunk. -/
theorem exists_loads (find : Bundle.find t root specifiers = .ok b) {f : Path × BundleFile} (hf : f ∈ b.files)
    (hshared : isShared f.2 = true) :
    ∃ e ∈ b.entrypoints, (commonChunk b.files).fileName ∈ (ownChunk b.files e).loads := by
  obtain ⟨s, hs⟩ := Bundle.exists_followed find
  rw [isShared, decide_eq_true_iff] at hshared
  obtain ⟨specifier, hmem⟩ := List.exists_mem_of_length_pos (Nat.zero_lt_of_lt hshared)
  obtain ⟨e, he, heq, -⟩ := (hs.marked_iff hf).1 hmem
  refine ⟨e, he, ?_⟩
  have hany : b.files.any (fun f => reaches e f.2 && isShared f.2) = true := by
    apply List.any_eq_true.2 ⟨f, hf, ?_⟩
    have hreaches : reaches e f.2 = true := by
      rw [reaches, heq]
      exact List.contains_iff_mem.2 hmem
    simp [hreaches, isShared, hshared]
  rw [ownChunk, if_pos hany]
  exact List.mem_singleton_self _

/-- The manifest of a bundle's chunks names exactly their files. -/
theorem mem_files_chunks (find : Bundle.find t root specifiers = .ok b) (chunker : Chunker) :
    name ∈ (Manifest.ofChunks (chunker.chunks b.entrypoints b.files)).files ↔
      ∃ c ∈ chunker.chunks b.entrypoints b.files, c.fileName = name := by
  have hnodup := nodup_starts find chunker
  have hnamed : name ∈ (Manifest.ofChunks (chunker.chunks b.entrypoints b.files)).files ↔
      ∃ c ∈ chunker.chunks b.entrypoints b.files, c.entrypoint.isSome ∧ (name = c.fileName ∨ name ∈ c.loads) := by
    rw [Manifest.mem_files]
    constructor
    · rintro ⟨entry, hentry, hname⟩
      obtain ⟨c, hc, e, hstart, rfl⟩ := (Manifest.mem_ofChunks hnodup).1 hentry
      exact ⟨c, hc, by rw [hstart]; rfl, hname⟩
    · rintro ⟨c, hc, hsome, hname⟩
      obtain ⟨e, hstart⟩ := Option.isSome_iff_exists.1 hsome
      exact ⟨_, (Manifest.mem_ofChunks hnodup).2 ⟨c, hc, e, hstart, rfl⟩, hname⟩
  rw [hnamed]
  constructor
  · rintro ⟨c, hc, hsome, rfl | hload⟩
    · exact ⟨c, hc, rfl⟩
    · rcases chunks_cases b.entrypoints b.files chunker with heq | ⟨heq, -⟩ <;> rw [heq] at hc ⊢
      · obtain ⟨e, -, rfl⟩ := List.mem_map.1 hc
        exact absurd hload List.not_mem_nil
      · refine ⟨commonChunk b.files, mem_split.2 (.inr rfl), (mem_loads hc hload).symm⟩
  · rintro ⟨c, hc, rfl⟩
    rcases chunks_cases b.entrypoints b.files chunker with heq | ⟨heq, f, hf, hshared⟩ <;> rw [heq] at hc ⊢
    · obtain ⟨e, he, rfl⟩ := List.mem_map.1 hc
      exact ⟨_, hc, rfl, .inl rfl⟩
    · rcases mem_split.1 hc with ⟨e, he, rfl⟩ | rfl
      · exact ⟨_, hc, rfl, .inl rfl⟩
      · obtain ⟨e, he, hloads⟩ := exists_loads find hf hshared
        exact ⟨ownChunk b.files e, mem_split.2 (.inl ⟨e, he, rfl⟩), rfl, .inr hloads⟩

end Chunker
end Bundler
