import Bundler.Proofs.Bundle.Closed
import Mathlib.Data.List.Nodup
import Mathlib.Data.List.Pairwise
/-!
# What is split is a partition

Splitting a bundle loses nothing and duplicates nothing: each file goes into exactly one chunk
(`partition_of_find`). What several entrypoints reach is in the common chunk, and what one of them alone reaches is in
its own, so the chunks that an entrypoint loads bring what its chunk would have if nothing were split. An entrypoint
is told from the others by its specifier, which is why the marks of a file count its entrypoints (`isShared_iff`).
-/

namespace Bundler

variable {t : FileTree} {root : Path} {specifiers : List String} {b : Bundle} {f g : Path × BundleFile}
  {e e' : Entrypoint}

/-! ## Who reaches a file -/

/-- Another entrypoint leads to the path. -/
def Bundle.Elsewhere (t : FileTree) (root : Path) (entrypoints : List Entrypoint) (e : Entrypoint) (p : Path) : Prop :=
  ∃ e' ∈ entrypoints, e' ≠ e ∧ Leads t root e'.module p

theorem one_lt_length_iff {α : Type} {xs : List α} (h : xs.Nodup) : 1 < xs.length ↔ ∃ x ∈ xs, ∃ y ∈ xs, x ≠ y := by
  constructor
  · intro hlen
    obtain ⟨x, y, rest, rfl⟩ : ∃ x y rest, xs = x :: y :: rest := by
      match xs, hlen with
      | x :: y :: rest, _ => exact ⟨x, y, rest, rfl⟩
    refine ⟨x, List.mem_cons_self, y, List.mem_cons_of_mem _ List.mem_cons_self, ?_⟩
    rintro rfl
    exact (List.nodup_cons.1 h).1 List.mem_cons_self
  · rintro ⟨x, hx, y, hy, hne⟩
    match xs with
    | [] => cases hx
    | [z] => exact absurd ((List.mem_singleton.1 hx).trans (List.mem_singleton.1 hy).symm) hne
    | _ :: _ :: _ => exact Nat.succ_lt_succ (Nat.succ_pos _)

namespace Bundle.Exact

variable (hb : Exact t root specifiers b)
include hb

theorem eq_of_specifier (he : e ∈ b.entrypoints) (he' : e' ∈ b.entrypoints) (h : e.specifier = e'.specifier) : e = e' :=
  List.inj_on_of_nodup_map hb.nodup_specifiers he he' h

theorem eq_of_same (hf : f ∈ b.files) (hg : g ∈ b.files) (h : f.1.Same g.1) : f = g := by
  have hsymm : Std.Symm fun f g : Path × BundleFile => ¬ f.1.Same g.1 := ⟨fun _ _ hnot hsame => hnot hsame.symm⟩
  by_contra hne
  exact hb.once.forall hf hg hne h

theorem marked_of_mem (hf : f ∈ b.files) (he : e ∈ b.entrypoints) :
    e.specifier ∈ f.2.entrypoints ↔ Leads t root e.module f.1 := by
  rw [hb.marked f hf]
  constructor
  · rintro ⟨e', he', heq, hleads⟩
    exact hb.eq_of_specifier he' he heq ▸ hleads
  · exact fun hleads => ⟨e, he, rfl, hleads⟩

/-- A file is shared if two entrypoints lead to it. -/
theorem isShared_iff (hf : f ∈ b.files) : Chunker.isShared f.2 = true ↔
    ∃ e ∈ b.entrypoints, Leads t root e.module f.1 ∧ Elsewhere t root b.entrypoints e f.1 := by
  rw [Chunker.isShared, decide_eq_true_iff, one_lt_length_iff (hb.markedOnce f hf)]
  constructor
  · rintro ⟨x, hx, y, hy, hne⟩
    obtain ⟨e, he, rfl, hleads⟩ := (hb.marked f hf x).1 hx
    obtain ⟨e', he', rfl, hleads'⟩ := (hb.marked f hf y).1 hy
    exact ⟨e, he, hleads, e', he', fun heq => hne (heq ▸ rfl), hleads'⟩
  · rintro ⟨e, he, hleads, e', he', hne, hleads'⟩
    exact ⟨_, (hb.marked_of_mem hf he).2 hleads, _, (hb.marked_of_mem hf he').2 hleads',
      fun heq => hne (hb.eq_of_specifier he he' heq).symm⟩

theorem isShared_iff_elsewhere (hf : f ∈ b.files) (hleads : Leads t root e.module f.1) (he : e ∈ b.entrypoints) :
    Chunker.isShared f.2 = true ↔ Elsewhere t root b.entrypoints e f.1 := by
  rw [hb.isShared_iff hf]
  constructor
  · rintro ⟨e₁, he₁, hleads₁, e₂, he₂, hne, hleads₂⟩
    by_cases heq : e₁ = e
    · exact ⟨e₂, he₂, heq ▸ hne, hleads₂⟩
    · exact ⟨e₁, he₁, heq, hleads₁⟩
  · exact fun h => ⟨e, he, hleads, h⟩

end Bundle.Exact

/-! ## Chunks -/

/-- The members of the common chunks that a chunk loads. -/
def Chunk.loaded (chunks : List Chunk) (c : Chunk) : List (Path × String) :=
  (chunks.filter fun d => d.entrypoint.isNone && c.loads.contains d.fileName).flatMap Chunk.files

namespace Chunker

variable {entrypoints : List Entrypoint} {files : BundleFiles} {chosen : BundleFile → Bool} {m m' : Path × String}
  {c : Chunk}

theorem mem_members_iff : m ∈ members files chosen ↔
    ∃ f ∈ files, chosen f.2 = true ∧ m = (f.1, f.2.record.hash) := by
  simp only [members, List.mem_map, List.mem_filter, and_assoc, eq_comm]

/-- The common chunk, if several entrypoints reach some file. -/
def commonChunk? (files : BundleFiles) : Option Chunk :=
  if files.any (fun (_, file) => isShared file) then some (commonChunk files) else none

theorem commonChunk?_eq_some :
    commonChunk? files = some c ↔ c = commonChunk files ∧ ∃ f ∈ files, isShared f.2 = true := by
  rw [commonChunk?, Option.ite_none_right_eq_some, List.any_eq_true, Option.some.injEq, and_comm, eq_comm]

/-- Where no file is shared, an entrypoint has all that it reaches to itself. -/
theorem ownChunk_of_unshared (h : ∀ f ∈ files, isShared f.2 = false) (e : Entrypoint) :
    ownChunk files e = wholeChunk files e := by
  have hmembers : members files (fun file => reaches e file && ! isShared file) = members files (reaches e) := by
    unfold members
    congr 1
    exact List.filter_congr fun f hf => by simp [h f hf]
  have hnone : files.any (fun f => reaches e f.2 && isShared f.2) = false := by
    rw [List.any_eq_false]
    intro f hf
    simp [h f hf]
  rw [ownChunk, hmembers, hnone]
  rfl

/-- Each entrypoint has its own chunk, and the common one comes last. -/
theorem chunks_splitCommon (entrypoints : List Entrypoint) (files : BundleFiles) :
    splitCommon.chunks entrypoints files = entrypoints.map (ownChunk files) ++ (commonChunk? files).toList := by
  rw [chunks, commonChunk?]
  split
  · rfl
  · next hnone =>
    rw [Bool.not_eq_true, List.any_eq_false] at hnone
    rw [separate_eq, Option.toList_none, List.append_nil]
    exact List.map_congr_left fun e _ =>
      (ownChunk_of_unshared (fun f hf => Bool.not_eq_true _ ▸ hnone f hf) e).symm

theorem mem_loaded : m ∈ (ownChunk files e).loaded (splitCommon.chunks entrypoints files) ↔
    (∃ f ∈ files, e.specifier ∈ f.2.entrypoints ∧ isShared f.2 = true) ∧
      ∃ f ∈ files, isShared f.2 = true ∧ m = (f.1, f.2.record.hash) := by
  simp only [Chunk.loaded, List.mem_flatMap, List.mem_filter, Bool.and_eq_true, Option.isNone_iff_eq_none,
    List.contains_iff_mem, mem_loads_ownChunk]
  constructor
  · rintro ⟨d, ⟨hd, hnone, -, hshared⟩, hm⟩
    rw [eq_commonChunk splitCommon hd hnone] at hm
    exact ⟨hshared, mem_members_iff.1 hm⟩
  · rintro ⟨hshared, hm⟩
    refine ⟨commonChunk files, ⟨?_, rfl, rfl, hshared⟩, mem_members_iff.2 hm⟩
    obtain ⟨f, hf, -, hf'⟩ := hshared
    rw [chunks_splitCommon]
    exact List.mem_append_right _ (Option.mem_toList.2 (commonChunk?_eq_some.2 ⟨rfl, f, hf, hf'⟩))

theorem mem_files_ownChunk : m ∈ (ownChunk files e).files ↔
    ∃ f ∈ files, (e.specifier ∈ f.2.entrypoints ∧ isShared f.2 = false) ∧ m = (f.1, f.2.record.hash) := by
  rw [ownChunk, mem_members_iff]
  simp only [Bool.and_eq_true, reaches_iff, Bool.not_eq_true']

theorem mem_files_wholeChunk : m ∈ (wholeChunk files e).files ↔
    ∃ f ∈ files, e.specifier ∈ f.2.entrypoints ∧ m = (f.1, f.2.record.hash) := by
  rw [wholeChunk, mem_members_iff]
  simp only [reaches_iff]

/-! ## Each file once -/

section Once

variable (hb : Bundle.Exact t root specifiers b)
include hb

theorem pairwise_members (chosen : BundleFile → Bool) :
    (members b.files chosen).Pairwise fun m m' => ¬ m.1.Same m'.1 := by
  rw [members, List.pairwise_map]
  exact hb.once.filter _

/-- No two chunks have a file in common: a file that two entrypoints reach is in neither of their chunks. -/
theorem pairwise_splitCommon : (splitCommon.chunks b.entrypoints b.files).Pairwise fun c d =>
    ∀ m ∈ c.files, ∀ m' ∈ d.files, ¬ m.1.Same m'.1 := by
  rw [chunks_splitCommon, List.pairwise_append, List.pairwise_map]
  refine ⟨?_, ?_, ?_⟩
  · refine (List.pairwise_map.1 hb.nodup_specifiers).imp fun {e e'} hne m hm m' hm' hsame => ?_
    obtain ⟨f, hf, ⟨hreached, hunshared⟩, rfl⟩ := mem_files_ownChunk.1 hm
    obtain ⟨g, hg, ⟨hreached', -⟩, rfl⟩ := mem_files_ownChunk.1 hm'
    obtain rfl := hb.eq_of_same hf hg hsame
    rw [isShared, decide_eq_false_iff_not, one_lt_length_iff (hb.markedOnce f hf)] at hunshared
    exact hunshared ⟨_, hreached, _, hreached', hne⟩
  · cases commonChunk? b.files with
    | none => exact List.Pairwise.nil
    | some c => exact List.pairwise_singleton _ _
  · intro c hc d hd m hm m' hm' hsame
    obtain ⟨e, -, rfl⟩ := List.mem_map.1 hc
    obtain ⟨rfl, -⟩ := commonChunk?_eq_some.1 (Option.mem_toList.1 hd)
    obtain ⟨f, hf, ⟨-, hunshared⟩, rfl⟩ := mem_files_ownChunk.1 hm
    obtain ⟨g, hg, hshared, rfl⟩ := mem_members_iff.1 hm'
    obtain rfl := hb.eq_of_same hf hg hsame
    rw [hshared] at hunshared
    cases hunshared

/-- Some entrypoint reaches each file, and if it is the only one the file is in its chunk. -/
theorem exists_mem_splitCommon (hf : f ∈ b.files) :
    ∃ c ∈ splitCommon.chunks b.entrypoints b.files, (f.1, f.2.record.hash) ∈ c.files := by
  rw [chunks_splitCommon]
  cases hshared : isShared f.2 with
  | true =>
    exact ⟨_, List.mem_append_right _ (Option.mem_toList.2 (commonChunk?_eq_some.2 ⟨rfl, f, hf, hshared⟩)),
      mem_members_iff.2 ⟨f, hf, hshared, rfl⟩⟩
  | false =>
    obtain ⟨e, he, hleads⟩ := (hb.reached f.1).1 ⟨f, hf, rfl⟩
    exact ⟨_, List.mem_append_left _ (List.mem_map_of_mem he),
      mem_files_ownChunk.2 ⟨f, hf, ⟨(hb.marked_of_mem hf he).2 hleads, hshared⟩, rfl⟩⟩

theorem once_splitCommon (hf : f ∈ b.files) :
    ∃ before c later, splitCommon.chunks b.entrypoints b.files = before ++ c :: later ∧
      (f.1, f.2.record.hash) ∈ c.files ∧ ∀ d ∈ before ++ later, ∀ m ∈ d.files, ¬ m.1.Same f.1 := by
  obtain ⟨c, hc, hmem⟩ := exists_mem_splitCommon hb hf
  obtain ⟨before, later, hsplit⟩ := List.append_of_mem hc
  have hapart := pairwise_splitCommon hb
  rw [hsplit, List.pairwise_middle fun hnot m hm m' hm' hsame => hnot m' hm' m hm hsame.symm,
    List.pairwise_cons] at hapart
  exact ⟨before, c, later, hsplit, hmem, fun d hd m hm hsame => hapart.1 d hd _ hmem m hm hsame.symm⟩

theorem perm_splitCommon : ((splitCommon.chunks b.entrypoints b.files).flatMap Chunk.files).Perm
    (b.files.map fun f => (f.1, f.2.record.hash)) := by
  have hmembers : ((splitCommon.chunks b.entrypoints b.files).flatMap Chunk.files).Nodup := by
    refine List.nodup_flatMap.2 ⟨fun c hc => ?_,
      (pairwise_splitCommon hb).imp fun hapart m hm hm' => hapart m hm m hm' rfl⟩
    obtain ⟨chosen, hchosen⟩ := exists_members hc
    rw [hchosen]
    refine (pairwise_members hb chosen).imp fun hnot heq => hnot ?_
    rw [heq]
    rfl
  have hfiles : (b.files.map fun f => (f.1, f.2.record.hash)).Nodup := by
    refine List.pairwise_map.2 (hb.once.imp fun hnot heq => hnot ?_)
    rw [(Prod.mk.inj heq).1]
    rfl
  refine (List.perm_ext_iff_of_nodup hmembers hfiles).2 fun m => ?_
  rw [List.mem_flatMap, List.mem_map]
  constructor
  · rintro ⟨c, hc, hm⟩
    obtain ⟨f, hf, rfl⟩ := (drawn_of_mem hc).files m hm
    exact ⟨f, hf, rfl⟩
  · rintro ⟨f, hf, rfl⟩
    exact exists_mem_splitCommon hb hf

end Once

/-! ## The partition -/

/-- What splitting makes of a bundle. -/
structure Partition (t : FileTree) (root : Path) (b : Bundle) : Prop where
  /-- Each entrypoint has its own chunk, and there may be a common one that starts nothing. -/
  chunks : splitCommon.chunks b.entrypoints b.files =
    b.entrypoints.map (ownChunk b.files) ++ (commonChunk? b.files).toList
  starts : (∀ e, (ownChunk b.files e).entrypoint = some e) ∧ ∀ c, commonChunk? b.files = some c → c.entrypoint = none
  /-- Each file is a member of one chunk, with the digest of its record, and of no other one. -/
  once : ∀ f ∈ b.files, ∃ before c later, splitCommon.chunks b.entrypoints b.files = before ++ c :: later ∧
    (f.1, f.2.record.hash) ∈ c.files ∧ ∀ d ∈ before ++ later, ∀ m ∈ d.files, ¬ m.1.Same f.1
  /-- The members of the chunks are the files, each once. -/
  exhausts : ((splitCommon.chunks b.entrypoints b.files).flatMap Chunk.files).Perm
    (b.files.map fun f => (f.1, f.2.record.hash))
  own : ∀ e ∈ b.entrypoints, ∀ m, m ∈ (ownChunk b.files e).files ↔ ∃ f ∈ b.files, m = (f.1, f.2.record.hash) ∧
    Bundle.Leads t root e.module f.1 ∧ ¬ Bundle.Elsewhere t root b.entrypoints e f.1
  /-- The common chunk is loaded for a file that another entrypoint reaches too. -/
  loads : ∀ e ∈ b.entrypoints,
    (∃ f ∈ b.files, Bundle.Leads t root e.module f.1 ∧ Bundle.Elsewhere t root b.entrypoints e f.1) →
      ∃ c, commonChunk? b.files = some c ∧ (ownChunk b.files e).loads = [c.fileName]
  /-- Nothing else is loaded. -/
  loadsNothing : ∀ e ∈ b.entrypoints,
    (∀ f ∈ b.files, Bundle.Leads t root e.module f.1 → ¬ Bundle.Elsewhere t root b.entrypoints e f.1) →
      (ownChunk b.files e).loads = []
  /-- Where nothing is split, each entrypoint has one chunk with all that it reaches. -/
  whole : perEntrypoint.chunks b.entrypoints b.files = b.entrypoints.map (wholeChunk b.files) ∧
    ∀ e ∈ b.entrypoints, (wholeChunk b.files e).entrypoint = some e ∧ ∀ m, m ∈ (wholeChunk b.files e).files ↔
      ∃ f ∈ b.files, m = (f.1, f.2.record.hash) ∧ Bundle.Leads t root e.module f.1
  /-- With what it loads, an entrypoint's own chunk has all of that. -/
  brings : ∀ e ∈ b.entrypoints, ∀ m ∈ (wholeChunk b.files e).files,
    m ∈ (ownChunk b.files e).files ++ (ownChunk b.files e).loaded (splitCommon.chunks b.entrypoints b.files)
  /-- What there is beyond that is reached by two other entrypoints. -/
  extra : ∀ e ∈ b.entrypoints,
    ∀ m ∈ (ownChunk b.files e).files ++ (ownChunk b.files e).loaded (splitCommon.chunks b.entrypoints b.files),
      m ∉ (wholeChunk b.files e).files → ∃ e₁ ∈ b.entrypoints, ∃ e₂ ∈ b.entrypoints, e₁ ≠ e ∧ e₂ ≠ e ∧ e₂ ≠ e₁ ∧
        Bundle.Leads t root e₁.module m.1 ∧ Bundle.Leads t root e₂.module m.1
  /-- Where no file is shared, nothing is split. -/
  unshared : (∀ f ∈ b.files, ∀ e ∈ b.entrypoints, Bundle.Leads t root e.module f.1 →
      ¬ Bundle.Elsewhere t root b.entrypoints e f.1) →
    splitCommon.chunks b.entrypoints b.files = perEntrypoint.chunks b.entrypoints b.files

/-- A file that the entrypoint reaches is in its own chunk, or in the common one, which it then loads. -/
theorem mem_brought (hm : m ∈ (wholeChunk files e).files) :
    m ∈ (ownChunk files e).files ++ (ownChunk files e).loaded (splitCommon.chunks entrypoints files) := by
  obtain ⟨f, hf, hreached, rfl⟩ := mem_files_wholeChunk.1 hm
  cases hshared : isShared f.2 with
  | true => exact List.mem_append_right _ (mem_loaded.2 ⟨⟨f, hf, hreached, hshared⟩, f, hf, hshared, rfl⟩)
  | false => exact List.mem_append_left _ (mem_files_ownChunk.2 ⟨f, hf, ⟨hreached, hshared⟩, rfl⟩)

section Members

variable (hb : Bundle.Exact t root specifiers b) (he : e ∈ b.entrypoints)
include hb he

theorem mem_own_iff : m ∈ (ownChunk b.files e).files ↔ ∃ f ∈ b.files, m = (f.1, f.2.record.hash) ∧
    Bundle.Leads t root e.module f.1 ∧ ¬ Bundle.Elsewhere t root b.entrypoints e f.1 := by
  rw [mem_files_ownChunk]
  refine exists_congr fun f => and_congr_right fun hf => ?_
  rw [hb.marked_of_mem hf he, and_comm, ← Bool.not_eq_true]
  exact and_congr_right fun _ => and_congr_right fun hleads => not_congr (hb.isShared_iff_elsewhere hf hleads he)

theorem mem_whole_iff : m ∈ (wholeChunk b.files e).files ↔
    ∃ f ∈ b.files, m = (f.1, f.2.record.hash) ∧ Bundle.Leads t root e.module f.1 := by
  rw [mem_files_wholeChunk]
  refine exists_congr fun f => and_congr_right fun hf => ?_
  rw [hb.marked_of_mem hf he, and_comm]

theorem exists_others
    (hm : m ∈ (ownChunk b.files e).files ++ (ownChunk b.files e).loaded (splitCommon.chunks b.entrypoints b.files))
    (hnot : m ∉ (wholeChunk b.files e).files) :
    ∃ e₁ ∈ b.entrypoints, ∃ e₂ ∈ b.entrypoints, e₁ ≠ e ∧ e₂ ≠ e ∧ e₂ ≠ e₁ ∧
      Bundle.Leads t root e₁.module m.1 ∧ Bundle.Leads t root e₂.module m.1 := by
  rcases List.mem_append.1 hm with hown | hloaded
  · obtain ⟨f, hf, ⟨hreached, -⟩, rfl⟩ := mem_files_ownChunk.1 hown
    exact absurd (mem_files_wholeChunk.2 ⟨f, hf, hreached, rfl⟩) hnot
  · obtain ⟨-, f, hf, hshared, rfl⟩ := mem_loaded.1 hloaded
    obtain ⟨e₁, he₁, hleads₁, e₂, he₂, hne, hleads₂⟩ := (hb.isShared_iff hf).1 hshared
    -- the file is not in the whole chunk, so the entrypoint itself does not lead to it
    have hother {e' : Entrypoint} (hleads : Bundle.Leads t root e'.module f.1) : e' ≠ e := by
      rintro rfl
      exact hnot ((mem_whole_iff hb he).2 ⟨f, hf, rfl, hleads⟩)
    exact ⟨e₁, he₁, e₂, he₂, hother hleads₁, hother hleads₂, hne, hleads₁, hleads₂⟩

theorem loads_common
    (h : ∃ f ∈ b.files, Bundle.Leads t root e.module f.1 ∧ Bundle.Elsewhere t root b.entrypoints e f.1) :
    ∃ c, commonChunk? b.files = some c ∧ (ownChunk b.files e).loads = [c.fileName] := by
  obtain ⟨f, hf, hleads, helse⟩ := h
  have hshared := (hb.isShared_iff_elsewhere hf hleads he).2 helse
  refine ⟨commonChunk b.files, commonChunk?_eq_some.2 ⟨rfl, f, hf, hshared⟩, if_pos ?_⟩
  rw [List.any_eq_true]
  refine ⟨f, hf, ?_⟩
  rw [Bool.and_eq_true, reaches_iff]
  exact ⟨(hb.marked_of_mem hf he).2 hleads, hshared⟩

theorem loads_nothing
    (h : ∀ f ∈ b.files, Bundle.Leads t root e.module f.1 → ¬ Bundle.Elsewhere t root b.entrypoints e f.1) :
    (ownChunk b.files e).loads = [] := by
  refine List.eq_nil_iff_forall_not_mem.2 fun name hname => ?_
  obtain ⟨-, f, hf, hreached, hshared⟩ := mem_loads_ownChunk.1 hname
  have hleads := (hb.marked_of_mem hf he).1 hreached
  exact h f hf hleads ((hb.isShared_iff_elsewhere hf hleads he).1 hshared)

end Members

theorem splitCommon_of_unshared (hb : Bundle.Exact t root specifiers b)
    (h : ∀ f ∈ b.files, ∀ e ∈ b.entrypoints, Bundle.Leads t root e.module f.1 →
      ¬ Bundle.Elsewhere t root b.entrypoints e f.1) :
    splitCommon.chunks b.entrypoints b.files = perEntrypoint.chunks b.entrypoints b.files := by
  refine if_neg ?_
  rw [List.any_eq_true]
  rintro ⟨f, hf, hshared⟩
  obtain ⟨e, he, hleads, helse⟩ := (hb.isShared_iff hf).1 hshared
  exact h f hf e he hleads helse

/-- Splitting a bundle puts each file into exactly one chunk, and takes nothing from an entrypoint. -/
theorem partition_of_find (h : Bundle.find t root specifiers = .ok b) : Partition t root b := by
  have hb := Bundle.exact_of_find h
  exact {
    chunks := chunks_splitCommon _ _
    starts := ⟨fun _ => rfl, fun c hc => by rw [(commonChunk?_eq_some.1 hc).1, commonChunk]⟩
    once := fun f hf => once_splitCommon hb hf
    exhausts := perm_splitCommon hb
    own := fun e he m => mem_own_iff hb he
    loads := fun e he h => loads_common hb he h
    loadsNothing := fun e he h => loads_nothing hb he h
    whole := ⟨rfl, fun e he => ⟨rfl, fun m => mem_whole_iff hb he⟩⟩
    brings := fun e he m hm => mem_brought hm
    extra := fun e he m hm hnot => exists_others hb he hm hnot
    unshared := splitCommon_of_unshared hb }

theorem paths_splitCommon_ringBundle : (splitCommon.chunks ringBundle.entrypoints ringBundle.files).map Chunk.paths =
    [[], [], [⟨"z.js"⟩], [⟨"x.js"⟩, ⟨"y.js"⟩]] := by decide

/-- Of the rings, one is reached by two entrypoints and goes into the common chunk, and the other stays. -/
theorem partition_rings :
    Bundle.find Bundle.rings ⟨"b"⟩ ["./x", "./y", "./z.js"] = .ok ringBundle ∧
      (splitCommon.chunks ringBundle.entrypoints ringBundle.files).map Chunk.paths =
        [[], [], [⟨"z.js"⟩], [⟨"x.js"⟩, ⟨"y.js"⟩]] ∧
      Partition Bundle.rings ⟨"b"⟩ ringBundle :=
  ⟨find_ringBundle, paths_splitCommon_ringBundle, partition_of_find find_ringBundle⟩

end Chunker
end Bundler
