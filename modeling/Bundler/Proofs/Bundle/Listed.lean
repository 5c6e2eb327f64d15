import Bundler.Proofs.Bundle.Linkable
import Bundler.Proofs.Bundle.Partition
import Bundler.Proofs.Bundle.Replaced
/-!
# Entrypoints in another order

Whether a bundle is found, and which files, chunks and manifest it has, depends on the specifiers that are asked for
and not on their order or on how often each is asked for (`find_of_listed`). The search goes other ways then and may
fail for something else; but what it finds is all that can be reached, in path order, and a table in the order of its
keys is known by its members. Records have to list neat paths, or the order decides which spelling of a path is kept.
-/

namespace Bundler

variable {t u u' : FileTree} {root dir p : Path} {specifiers specifiers' : List String} {b b' : Bundle}
  {e : Entrypoint} {chunker : Chunker} {c : Chunk}

namespace Bundle

/-! ## What is found -/

theorem Reachable.of_listed (hsame : ∀ specifier ∈ specifiers, specifier ∈ specifiers')
    (h : Reachable t root specifiers p) : Reachable t root specifiers' p := by
  obtain ⟨specifier, hasked, hchain⟩ := h
  exact ⟨specifier, hsame specifier hasked, hchain⟩

theorem Linkable.of_listed (hsame : ∀ specifier ∈ specifiers', specifier ∈ specifiers)
    (h : Linkable t root specifiers) : Linkable t root specifiers' where
  resolves specifier hasked := h.resolves specifier (hsame specifier hasked)
  recorded p hp := h.recorded p (hp.of_listed hsame)
  compiled p r hp := h.compiled p r (hp.of_listed hsame)

theorem NeatImports.files (hneat : NeatImports t root specifiers) (h : find t root specifiers = .ok b) :
    ∀ f ∈ b.files, ∀ i ∈ f.2.record.imports, i.Neat := by
  obtain ⟨s, hs⟩ := exists_followed h
  exact fun f hf => hneat f.1 f.2.record (hs.reachable (hs.of_mem hf)) (find_record h hf)

/-- Where a list of specifiers finds a bundle, a list of no other ones does. -/
theorem find_ok_of_listed (hneat : NeatImports t root specifiers)
    (hsame : ∀ specifier ∈ specifiers', specifier ∈ specifiers) (h : find t root specifiers = .ok b) :
    ∃ b', find t root specifiers' = .ok b' := by
  obtain ⟨s, hs⟩ := exists_followed h
  exact ((hs.linkable (shortSpellings_of_neat hneat)).of_listed hsame).find_ok

/-- An entrypoint is known by its specifier. -/
theorem Exact.mem_entrypoints_iff (hb : Exact t root specifiers b) :
    e ∈ b.entrypoints ↔ e.specifier ∈ specifiers ∧ resolve t root ⟨""⟩ e.specifier = .ok e.module := by
  constructor
  · exact fun he => ⟨(hb.asked _).1 (List.mem_map_of_mem he), hb.resolved e he⟩
  · rintro ⟨hasked, hresolve⟩
    obtain ⟨⟨specifier, module⟩, he, rfl⟩ := List.mem_map.1 ((hb.asked _).2 hasked)
    have hmodule := (hb.resolved _ he).symm.trans hresolve
    cases Except.ok.inj hmodule
    exact he

section Two

variable (hsame : ∀ specifier, specifier ∈ specifiers ↔ specifier ∈ specifiers')
  (hfind : find t root specifiers = .ok b) (hfind' : find t root specifiers' = .ok b')
include hsame hfind hfind'

theorem mem_entrypoints_of_listed : e ∈ b.entrypoints ↔ e ∈ b'.entrypoints := by
  rw [(exact_of_find hfind).mem_entrypoints_iff, (exact_of_find hfind').mem_entrypoints_iff, hsame]

theorem perm_entrypoints : b.entrypoints.Perm b'.entrypoints :=
  (List.perm_ext_iff_of_nodup (exact_of_find hfind).nodup_specifiers.of_map
    (exact_of_find hfind').nodup_specifiers.of_map).2 fun _ => mem_entrypoints_of_listed hsame hfind hfind'

/-- A file is found by both, with one record and the same marks. -/
theorem subset_files (hneat : NeatImports t root specifiers) : b.files ⊆ b'.files := by
  have hb := exact_of_find hfind
  have hb' := exact_of_find hfind'
  have hentry {e : Entrypoint} := mem_entrypoints_of_listed (e := e) hsame hfind hfind'
  have hneat' : NeatImports t root specifiers' := fun p r hp =>
    hneat p r (hp.of_listed fun specifier => (hsame specifier).2)
  obtain ⟨s, hs⟩ := exists_followed hfind
  obtain ⟨s', hs'⟩ := exists_followed hfind'
  rintro ⟨path, record, marks⟩ hf
  obtain ⟨e, he, hleads⟩ := (hb.reached path).1 ⟨_, hf, rfl⟩
  obtain ⟨⟨path', record', marks'⟩, hf', heq⟩ := (hb'.reached path).2 ⟨e, hentry.1 he, hleads⟩
  obtain rfl : path = path' := (hs.neat (hneat.files hfind) hf).eq_of_same (hs'.neat (hneat'.files hfind') hf') heq
  obtain rfl : record = record' := Except.ok.inj ((hb.record _ hf).symm.trans (hb'.record _ hf'))
  have hmarks : marks = marks' := by
    have hasc := ascending_marks (hs.files ▸ hf)
    have hasc' := ascending_marks (hs'.files ▸ hf')
    refine Sorted.eq_of_pairwise_lt id hasc hasc' fun specifier => ?_
    have hmarked := hb.marked _ hf specifier
    rw [hmarked, hb'.marked _ hf' specifier]
    exact exists_congr fun e => and_congr_left fun _ => hentry
  exact hmarks ▸ hf'

theorem files_eq (hneat : NeatImports t root specifiers) : b.files = b'.files := by
  obtain ⟨s, hs⟩ := exists_followed hfind
  obtain ⟨s', hs'⟩ := exists_followed hfind'
  have hneat' : NeatImports t root specifiers' := fun p r hp =>
    hneat p r (hp.of_listed fun specifier => (hsame specifier).2)
  have hback := subset_files (fun specifier => (hsame specifier).symm) hfind' hfind hneat'
  exact Sorted.eq_of_ascending hs.ascending hs'.ascending fun _ =>
    ⟨fun hf => subset_files hsame hfind hfind' hneat hf, fun hf => hback hf⟩

end Two

/-! ## What is linked -/

/-- What is clear for some chunks is clear for them in another order. -/
theorem Clear.of_mem_iff {chunks chunks' : List Chunk} (hmem : ∀ c, c ∈ chunks ↔ c ∈ chunks')
    (h : Clear root dir chunks t c) : Clear root dir chunks' t c where
  well := h.well
  distinct := by
    refine ⟨fun c hc c' hc' => ?_, fun c hc c' hc' => ?_⟩
    · exact h.distinct.alike c ((hmem c).2 hc) c' ((hmem c').2 hc')
    · exact h.distinct.single c ((hmem c).2 hc) c' ((hmem c').2 hc')
  manifest := h.manifest
  modules m hm := by
    rintro ⟨c', hc', haffected⟩
    exact h.modules m hm ⟨c', (hmem c').2 hc', haffected⟩

/-- Two bundles over one tree are linked alike. -/
structure LinkedAlike (t : FileTree) (root : Path) (b b' : Bundle) : Prop where
  files : b.files = b'.files
  chunks : ∀ chunker : Chunker,
    (chunker.chunks b.entrypoints b.files).Perm (chunker.chunks b'.entrypoints b'.files)
  /-- The files of the chunks have the same names and hold the same, whatever the modules hold. -/
  contents : ∀ (chunker : Chunker) (text : Path → Bytes),
    ((chunker.chunks b.entrypoints b.files).map fun c => (c.fileName, chunkContent c text)).Perm
      ((chunker.chunks b'.entrypoints b'.files).map fun c => (c.fileName, chunkContent c text))
  manifest : ∀ chunker : Chunker, Manifest.ofChunks (chunker.chunks b.entrypoints b.files) =
    Manifest.ofChunks (chunker.chunks b'.entrypoints b'.files)
  /-- Once they are written, the files hold the same too, if no chunk is written over a module or another chunk. -/
  written : ∀ (chunker : Chunker) (dir : Path) (u u' : FileTree),
    Publishes root dir (chunker.chunks b.entrypoints b.files) t u →
    Publishes root dir (chunker.chunks b'.entrypoints b'.files) t u' →
      ∀ c ∈ chunker.chunks b.entrypoints b.files, Clear root dir (chunker.chunks b.entrypoints b.files) t c →
        ∃ content, u.read (dir.join ⟨c.fileName⟩) = .ok content ∧ u'.read (dir.join ⟨c.fileName⟩) = .ok content

end Bundle

theorem Chunker.perm_chunks {entrypoints entrypoints' : List Entrypoint} (hperm : entrypoints.Perm entrypoints')
    (files : BundleFiles) (chunker : Chunker) :
    (chunker.chunks entrypoints files).Perm (chunker.chunks entrypoints' files) := by
  cases chunker with
  | perEntrypoint => exact hperm.map _
  | splitCommon =>
    rw [chunks_splitCommon, chunks_splitCommon]
    exact (hperm.map _).append_right _

namespace Bundle

/-- How the specifiers are listed changes neither whether a bundle is found nor what is linked, if the records list
neat paths. -/
theorem find_of_listed (hsame : ∀ specifier, specifier ∈ specifiers ↔ specifier ∈ specifiers')
    (hneat : NeatImports t root specifiers) :
    ((∃ b, find t root specifiers = .ok b) ↔ ∃ b', find t root specifiers' = .ok b') ∧
      ∀ b b', find t root specifiers = .ok b → find t root specifiers' = .ok b' → LinkedAlike t root b b' := by
  have hneat' : NeatImports t root specifiers' := fun p r hp =>
    hneat p r (hp.of_listed fun specifier => (hsame specifier).2)
  refine ⟨⟨fun ⟨b, h⟩ => ?_, fun ⟨b', h'⟩ => ?_⟩, fun b b' hfind hfind' => ?_⟩
  · exact find_ok_of_listed hneat (fun specifier => (hsame specifier).2) h
  · exact find_ok_of_listed hneat' (fun specifier => (hsame specifier).1) h'
  have hfiles := files_eq hsame hfind hfind' hneat
  have hchunks (chunker : Chunker) :
      (chunker.chunks b.entrypoints b.files).Perm (chunker.chunks b'.entrypoints b'.files) := by
    rw [← hfiles]
    exact Chunker.perm_chunks (perm_entrypoints hsame hfind hfind') b.files chunker
  refine ⟨hfiles, hchunks, fun chunker text => (hchunks chunker).map _,
    fun chunker => Manifest.ofChunks_perm (hchunks chunker) (Chunker.nodup_starts hfind chunker), ?_⟩
  intro chunker dir u u' hpublishes hpublishes' c hc hclear
  have hc' := (hchunks chunker).mem_iff.1 hc
  have hclear' := hclear.of_mem_iff fun _ => (hchunks chunker).mem_iff
  exact ⟨_,
    (hclear.read_of_publishes hc (read_records hfind hc) (Chunker.nodup_modules hfind chunker) hpublishes).2,
    (hclear'.read_of_publishes hc' (read_records hfind' hc') (Chunker.nodup_modules hfind' chunker) hpublishes').2⟩

/-- The rings, asked for in two orders, one of them with a specifier twice. -/
theorem find_of_listed_rings :
    (∀ specifier, specifier ∈ ["./x", "./z.js", "./x"] ↔ specifier ∈ ["./z.js", "./x"]) ∧
      NeatImports rings ⟨"b"⟩ ["./x", "./z.js", "./x"] ∧
      ∃ b b', find rings ⟨"b"⟩ ["./x", "./z.js", "./x"] = .ok b ∧ find rings ⟨"b"⟩ ["./z.js", "./x"] = .ok b' ∧
        b.entrypoints.map (·.specifier) = ["./x", "./z.js"] ∧ b'.entrypoints.map (·.specifier) = ["./z.js", "./x"] ∧
        LinkedAlike rings ⟨"b"⟩ b b' := by
  have hsame (specifier : String) : specifier ∈ ["./x", "./z.js", "./x"] ↔ specifier ∈ ["./z.js", "./x"] := by
    simp only [List.mem_cons, List.not_mem_nil, or_false]
    tauto
  have hneat : NeatImports rings ⟨"b"⟩ ["./x", "./z.js", "./x"] := neat_rings (by decide)
  obtain ⟨hiff, halike⟩ := find_of_listed hsame hneat
  obtain ⟨b', hfind'⟩ := hiff.1 ⟨_, find_repeated⟩
  obtain ⟨s', hs'⟩ := exists_followed hfind'
  exact ⟨hsame, hneat, _, b', find_repeated, hfind', rfl, hs'.asked, halike _ b' find_repeated hfind'⟩

end Bundle
end Bundler
