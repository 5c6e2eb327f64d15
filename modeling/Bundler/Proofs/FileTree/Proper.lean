import Bundler.Proofs.FileTree.Spelling
import Bundler.Proofs.Path.Joined
import Mathlib.Data.List.Nodup
/-!
# Trees as a file system holds them

In a `Proper` tree every entry is there once, under names, and lies in a directory. Then the files below a
directory are found once each (`mem_filesBelow`, `nodup_filesBelow`), and a path made of their names leads to
them (`place_join_names`). A path that goes down only leads down from wherever it is seen
(`place_join_of_inner`).
-/

namespace Bundler

namespace FileTree

/-- The names of a location can be spelled in a path. -/
def Spelled (l : Location) : Prop := ∀ name ∈ l, IsName name ∧ '/' ∉ name.toList

/-- What a file system holds: every entry once, under names, in a directory. -/
structure Proper (t : FileTree) : Prop where
  once : (t.entries.map Prod.fst).Nodup
  named : ∀ e ∈ t.entries, e.1 ≠ [] ∧ Spelled e.1
  inside : ∀ e ∈ t.entries, t.node? e.1.dropLast = some .directory

variable {t : FileTree} {l m : Location} {n : Node}

theorem lookup_eq_some_iff {es : List (Location × Node)} (h : (es.map Prod.fst).Nodup) :
    es.lookup l = some n ↔ (l, n) ∈ es := by
  induction es with
  | nil => simp
  | cons e es ih =>
    obtain ⟨k, n'⟩ := e
    rw [List.map_cons, List.nodup_cons] at h
    rw [List.lookup_cons, List.mem_cons]
    by_cases hk : l = k
    · subst hk
      have hnot : (l, n) ∉ es := fun hmem => h.1 (List.mem_map.2 ⟨_, hmem, rfl⟩)
      simp [hnot, eq_comm]
    · have hbeq : (l == k) = false := by simpa using hk
      simp [hbeq, hk, ih h.2]

namespace Proper

theorem mem_entries_iff (h : t.Proper) : (l, n) ∈ t.entries ↔ l ≠ [] ∧ t.node? l = some n := by
  constructor
  · intro hmem
    have hl := (h.named _ hmem).1
    refine ⟨hl, ?_⟩
    rw [node?, if_neg hl]
    exact (lookup_eq_some_iff h.once).2 hmem
  · rintro ⟨hl, hn⟩
    rw [node?, if_neg hl] at hn
    exact (lookup_eq_some_iff h.once).1 hn

theorem spelled (h : t.Proper) (hn : t.node? l = some n) : Spelled l := by
  by_cases hl : l = []
  · subst hl
    simp [Spelled]
  · exact (h.named _ (h.mem_entries_iff.2 ⟨hl, hn⟩)).2

/-- All that an entry lies in is a directory. -/
theorem above (h : t.Proper) (hn : t.node? l = some n) (hm : m <+: l) (hne : m ≠ l) :
    t.node? m = some .directory := by
  induction hlen : l.length generalizing l n with
  | zero =>
    have hnil : l = [] := List.length_eq_zero_iff.1 hlen
    subst hnil
    exact absurd (List.prefix_nil.1 hm) hne
  | succ k ih =>
    have hl : l ≠ [] := by
      rintro rfl
      cases hlen
    have hdir := h.inside _ (h.mem_entries_iff.2 ⟨hl, hn⟩)
    rw [← List.dropLast_concat_getLast hl] at hm hne
    have hm := (List.prefix_concat_iff.1 hm).resolve_left hne
    by_cases heq : m = l.dropLast
    · rw [heq]
      exact hdir
    · apply ih hdir hm heq
      rw [List.length_dropLast, hlen]
      rfl

/-! ## The files below a directory -/

theorem mem_below_iff {names : Location} (h : t.Proper) :
    (names, n) ∈ t.below l ↔ names ≠ [] ∧ t.node? (l ++ names) = some n := by
  unfold below
  rw [List.mem_mergeSort, List.mem_filterMap]
  constructor
  · rintro ⟨⟨k, n'⟩, hmem, hpart⟩
    obtain ⟨-, hn⟩ := h.mem_entries_iff.1 hmem
    dsimp only at hpart
    split at hpart
    · next hk =>
      obtain ⟨more, rfl⟩ := List.isPrefixOf_iff_prefix.1 hk.1
      have hmore := hk.2
      rw [List.length_append] at hmore
      simp only [List.drop_left, Option.some.injEq, Prod.mk.injEq] at hpart
      obtain ⟨rfl, rfl⟩ := hpart
      refine ⟨?_, hn⟩
      rintro rfl
      simp at hmore
    · cases hpart
  · rintro ⟨hne, hn⟩
    refine ⟨(l ++ names, n), h.mem_entries_iff.2 ⟨by simp [hne], hn⟩, ?_⟩
    have hpos : 0 < names.length := List.length_pos_iff.2 hne
    simp [hpos]

theorem mem_filesBelow {names : Location} (h : t.Proper) :
    names ∈ t.filesBelow l ↔ names ≠ [] ∧ ∃ content, t.node? (l ++ names) = some (.file content) := by
  unfold filesBelow
  rw [List.mem_filterMap]
  constructor
  · rintro ⟨⟨k, _ | content⟩, hmem, hk⟩
    · cases hk
    · obtain ⟨hne, hn⟩ := h.mem_below_iff.1 hmem
      cases hk
      exact ⟨hne, content, hn⟩
  · rintro ⟨hne, content, hn⟩
    exact ⟨(names, .file content), h.mem_below_iff.2 ⟨hne, hn⟩, rfl⟩

theorem nodup_below (h : t.Proper) (l : Location) : ((t.below l).map Prod.fst).Nodup := by
  unfold below
  have hperm := List.mergeSort_perm (t.entries.filterMap fun e =>
    if l.isPrefixOf e.1 ∧ l.length < e.1.length then some (e.1.drop l.length, e.2) else none)
    fun a b => (compareLocations a.1 b.1).isLE
  rw [(hperm.map Prod.fst).nodup_iff, List.map_filterMap]
  -- what is relative to the directory is known with the directory
  have hkeys : (t.entries.map Prod.fst).filterMap (fun k =>
      if l.isPrefixOf k ∧ l.length < k.length then some (k.drop l.length) else none) =
      t.entries.filterMap fun e => Option.map Prod.fst
        (if l.isPrefixOf e.1 ∧ l.length < e.1.length then some (e.1.drop l.length, e.2) else none) := by
    rw [List.filterMap_map]
    congr 1
    funext e
    dsimp only [Function.comp_apply]
    split <;> rfl
  rw [← hkeys]
  apply List.Nodup.filterMap _ h.once
  intro k k' names hk hk'
  rw [Option.mem_def] at hk hk'
  split at hk
  · split at hk'
    · next hin hin' =>
      obtain ⟨more, rfl⟩ := List.isPrefixOf_iff_prefix.1 hin.1
      obtain ⟨more', rfl⟩ := List.isPrefixOf_iff_prefix.1 hin'.1
      simp only [List.drop_left, Option.some.injEq] at hk hk'
      rw [hk, hk']
    · cases hk'
  · cases hk

theorem nodup_filesBelow (h : t.Proper) (l : Location) : (t.filesBelow l).Nodup := by
  have hsub : (t.filesBelow l).Sublist ((t.below l).map Prod.fst) := by
    unfold filesBelow
    induction t.below l with
    | nil => exact List.Sublist.slnil
    | cons e es ih =>
      obtain ⟨k, _ | content⟩ := e
      · simpa using ih.cons k
      · simpa using ih
  exact hsub.nodup (h.nodup_below l)

end Proper

/-- All that is below a location, relative to it, in the order of the entries. -/
def inside (t : FileTree) (l : Location) : List (Location × Node) :=
  t.entries.filterMap fun e => if l.isPrefixOf e.1 ∧ l.length < e.1.length then some (e.1.drop l.length, e.2) else none

/-- The files below a location, relative to it, in the order of the entries. -/
def filesInside (t : FileTree) (l : Location) : List Location :=
  (t.inside l).filterMap fun e =>
    match e.2 with
    | .directory => none
    | .file _ => some e.1

/-- Where the entries are in path order already they need not be sorted. -/
theorem filesBelow_of_sorted (h : (t.inside l).Pairwise fun a b => (compareLocations a.1 b.1).isLE) :
    t.filesBelow l = t.filesInside l :=
  congrArg (List.filterMap _) (List.mergeSort_of_pairwise h)

end FileTree

/-! ## Paths made of names -/

namespace Path

/-- The path goes down only, once it is normalized. -/
def Inner (p : Path) : Prop := p.isAbsolute = false ∧ .up ∉ p.normalize.components

instance (p : Path) : Decidable p.Inner := inferInstanceAs (Decidable (_ ∧ _))

end Path

namespace FileTree

open Bundler.Path (Component descend)

theorem foldl_walk_names {here names : Location} (h : ∀ name ∈ names, IsName name) :
    names.foldl walk here = here ++ names := by
  induction names generalizing here with
  | nil => simp
  | cons name names ih =>
    rw [List.forall_mem_cons] at h
    rw [List.foldl_cons, walk_name h.1, ih h.2, List.append_assoc]
    rfl

theorem pieces_names {names : Location} (hne : names ≠ []) (h : Spelled names) :
    Path.pieces ⟨"/".intercalate names⟩ = names ∧ Path.isAbsolute ⟨"/".intercalate names⟩ = false := by
  have hpieces : Path.pieces ⟨"/".intercalate names⟩ = names :=
    Path.pieces_intercalate hne fun name hname => (h name hname).2
  refine ⟨hpieces, ?_⟩
  rw [← Bool.not_eq_true]
  intro habs
  obtain ⟨rest, hrest⟩ := Path.pieces_of_isAbsolute habs
  rw [hpieces] at hrest
  exact (h "" (by simp [hrest])).1.1 rfl

/-- Names behind a path lead down from where it leads. -/
theorem place_join_names (p : Path) {names : Location} (hne : names ≠ []) (h : Spelled names) :
    place (p.join ⟨"/".intercalate names⟩) = place p ++ names := by
  obtain ⟨hpieces, habs⟩ := pieces_names hne h
  rw [place_join, habs, if_neg Bool.false_ne_true, hpieces]
  exact foldl_walk_names fun name hname => (h name hname).1

theorem filterMap_ofPiece_names {names : Location} (h : ∀ name ∈ names, IsName name) :
    names.filterMap Component.ofPiece = names.map .name := by
  induction names with
  | nil => rfl
  | cons name names ih =>
    rw [List.forall_mem_cons] at h
    rw [List.filterMap_cons_some (Path.ofPiece_eq_name.2 ⟨rfl, h.1⟩), ih h.2, List.map_cons]

/-- Names behind a path are components behind its components. -/
theorem components_join_names (p : Path) {names : Location} (hne : names ≠ []) (h : Spelled names) :
    (p.join ⟨"/".intercalate names⟩).components = p.components ++ names.map .name := by
  obtain ⟨hpieces, habs⟩ := pieces_names hne h
  have hnames := filterMap_ofPiece_names fun name hname => (h name hname).1
  by_cases hp : p.text = ""
  · obtain ⟨first, rest, rfl⟩ := List.exists_cons_of_ne_nil hne
    rw [show p = ⟨""⟩ from Path.eq_of_text hp, show (Path.mk "").components = [] from rfl, List.nil_append, ← hnames]
    have hjoin : (Path.mk "").join ⟨"/".intercalate (first :: rest)⟩ = ⟨"/".intercalate (first :: rest)⟩ :=
      Path.eq_of_text (by rw [Path.text_join habs]; simp)
    have hdot : first ≠ "." := (h first List.mem_cons_self).1.2.1
    rw [hjoin, Path.components, hpieces]
    dsimp only
    rw [habs, if_neg Bool.false_ne_true, if_neg hdot, List.filterMap_cons]
    cases Component.ofPiece first <;> rfl
  · rw [Path.components_join habs hp, hpieces, hnames]

/-- A `..` that could not be resolved stays. -/
theorem up_mem_foldl {cs taken : List Component} (hroot : .root ∉ cs) (h : .up ∈ taken) :
    .up ∈ cs.foldl descend taken := by
  induction cs generalizing taken with
  | nil => exact h
  | cons c cs ih =>
    rw [List.mem_cons, not_or] at hroot
    apply ih hroot.2
    cases c with
    | root => exact absurd rfl hroot.1
    | here => exact h
    | name s => cases taken <;> simp_all [descend]
    | up =>
      cases taken with
      | nil => cases h
      | cons first rest => cases first <;> simp_all [descend]

/-- Below the top no step of an inner path goes. What it has taken are the names that it has added. -/
theorem foldl_enter_eq {cs : List Component} (here : Location) {taken : Location} (hroot : .root ∉ cs)
    (hup : .up ∉ cs.foldl descend (taken.map .name)) :
    cs.foldl enter (here ++ taken.reverse) = here ++ cs.foldl enter taken.reverse := by
  induction cs generalizing taken with
  | nil => rfl
  | cons c cs ih =>
    rw [List.mem_cons, not_or] at hroot
    rw [List.foldl_cons] at hup ⊢
    rw [List.foldl_cons]
    cases c with
    | root => exact absurd rfl hroot.1
    | here => exact ih hroot.2 (by simpa [descend] using hup)
    | name s =>
      have hrest : .up ∉ cs.foldl descend ((s :: taken).map .name) := by cases taken <;> simpa [descend] using hup
      simpa [enter] using ih hroot.2 hrest
    | up =>
      cases taken with
      | nil => exact absurd (up_mem_foldl hroot.2 (by simp [descend])) hup
      | cons s taken =>
        have hrest : .up ∉ cs.foldl descend (taken.map .name) := by simpa [descend] using hup
        simpa [enter] using ih hroot.2 hrest

/-- An inner path leads down from wherever it is seen. -/
theorem place_join_of_inner (p : Path) {q : Path} (h : q.Inner) : place (p.join q) = place p ++ place q := by
  obtain ⟨habs, hup⟩ := h
  rw [Path.components_normalize, List.mem_reverse] at hup
  have hroot := Path.root_notMem_components habs
  rw [place_join, habs, if_neg Bool.false_ne_true, foldl_walk_components, place.eq_1 q, foldl_walk_components]
  have hup : .up ∉ q.components.foldl descend (([] : Location).map .name) := hup
  simpa using foldl_enter_eq (place p) hroot hup

end FileTree
end Bundler
