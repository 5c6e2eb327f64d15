import Bundler.Proofs.FileTree.Inside
/-!
# Files that are taken away

A path can be used to remove a file exactly if it denotes one, however it is spelled (`removeFile_of_isFile`,
`isFile_of_removeFile`). Then only the entry at its place goes, and all other paths denote what they denoted
(`isFile_erase`). A tree is `Without` some locations if that is all that has become of it.
-/

namespace Bundler.FileTree

variable {t u v : FileTree} {p : Path} {k l m : Location} {content : Bytes} {S S' : Location → Prop}

/-! ## Taking one entry away -/

theorem lookup_erase {α : Type} {es : List (Location × α)} :
    (es.filterMap fun e => (if e.1 = l then none else some e.1).map (·, e.2)).lookup k =
      if k = l then none else es.lookup k := by
  induction es with
  | nil => simp
  | cons e es ih =>
    obtain ⟨m, n⟩ := e
    by_cases hm : m = l
    · subst hm
      rw [List.filterMap_cons_none (by simp), ih]
      split
      · rfl
      · next hk => rw [List.lookup_cons, beq_eq_false_iff_ne.2 hk]
    · rw [List.filterMap_cons_some (b := (m, n)) (by simp [hm]), List.lookup_cons, List.lookup_cons]
      by_cases hk : k = m
      · subst hk
        simp [hm]
      · rw [beq_eq_false_iff_ne.2 hk, ih]

/-- One entry is taken away. -/
theorem node?_erase (hl : l ≠ []) : (t.erase l).node? k = if k = l then none else t.node? k := by
  by_cases hk : k = []
  · subst hk
    rw [if_neg hl.symm]
    rfl
  · simp only [node?, if_neg hk, erase, reindex, lookup_erase]

theorem mem_links_erase {group : List Location} (h : group ∈ (t.erase l).links) :
    ∃ old ∈ t.links, ∀ k ∈ group, k ∈ old ∧ k ≠ l := by
  unfold erase reindex at h
  dsimp only at h
  obtain ⟨old, hold, rfl⟩ := List.mem_map.1 (List.mem_filter.1 h).1
  refine ⟨old, hold, fun k hk => ?_⟩
  obtain ⟨m, hm, heq⟩ := List.mem_filterMap.1 hk
  split at heq
  · cases heq
  · next hne =>
    cases heq
    exact ⟨hm, hne⟩

/-! ## Removing a file -/

/-- An operation that is given the path of a file finds it as a name in a directory. -/
theorem exists_aim_of_read (h : t.read p = .ok content) :
    ∃ parent name, place p = parent ++ [name] ∧ t.aim p = .ok (.name parent name false) := by
  obtain ⟨hps, hfollow, hnode⟩ := at?_eq_some.1 (read_eq_ok.1 h)
  have hpieces := (List.dropLast_concat_getLast (Path.pieces_ne_nil p)).symm
  rw [hpieces] at hps hfollow
  obtain ⟨dir, hdir, hdirectory, hshort, hplace⟩ := follow_append_piece hfollow
  have hname := isName_of_file hdir hdirectory (hplace ▸ hnode)
  rw [walk_name hname] at hplace
  exact ⟨dir, _, hplace, aim_of_follow hname hps hdir hdirectory hshort⟩

theorem removeFile_of_isFile (h : t.isFile p = true) : t.removeFile p = .ok (t.erase (place p)) := by
  obtain ⟨content, hread⟩ := read_of_isFile h
  obtain ⟨parent, name, hplace, haim⟩ := exists_aim_of_read hread
  have hnode := node?_of_read hread
  rw [hplace] at hnode ⊢
  unfold removeFile
  rw [haim]
  dsimp only
  rw [hnode]
  rfl

theorem isFile_of_removeFile (h : t.removeFile p = .ok u) : t.isFile p = true := by
  unfold removeFile at h
  split at h
  · cases h
  · cases h
  next parent name slash haim =>
  split at h
  · cases h
  · cases h
  next content hnode =>
  split at h
  · cases h
  next hslash =>
  rw [Bool.not_eq_true] at hslash
  subst hslash
  exact isFile_of_read (read_of_aim haim hnode)

theorem ne_nil_of_file (h : t.node? l = some (.file content)) : l ≠ [] := by
  rintro rfl
  cases h

/-- With one file gone, all others are there. -/
theorem isFile_erase (hl : t.node? l = some (.file content)) :
    (t.erase l).isFile p = true ↔ t.isFile p = true ∧ place p ≠ l := by
  have hne := ne_nil_of_file hl
  have hdirectory (k : Location) : (t.erase l).node? k = some .directory ↔ t.node? k = some .directory := by
    rw [node?_erase hne]
    split
    · next heq => rw [heq, hl]; exact ⟨nofun, nofun⟩
    · rfl
  constructor
  · intro h
    obtain ⟨other, hread⟩ := read_of_isFile h
    have hnode := node?_of_read hread
    rw [node?_erase hne] at hnode
    split at hnode
    · cases hnode
    · next hother => exact ⟨isFile_of_read (read_of_directories (fun k => (hdirectory k).1) hnode hread), hother⟩
  · rintro ⟨h, hother⟩
    obtain ⟨other, hread⟩ := read_of_isFile h
    have hnode : (t.erase l).node? (place p) = some (.file other) := by
      rw [node?_erase hne, if_neg hother]
      exact node?_of_read hread
    exact isFile_of_read (read_of_directories (fun k => (hdirectory k).2) hnode hread)

/-! ## Trees without some files -/

/-- Of the tree `t` some locations are gone in `u`, and nothing else has changed: neither the other entries, nor their
permission bits, nor which of them are names of one file. -/
structure Without (S : Location → Prop) (t u : FileTree) : Prop where
  gone : ∀ l, S l → u.node? l = none
  entry : ∀ l, ¬ S l → u.node? l = t.node? l
  mode : ∀ l, ¬ S l → u.mode l = t.mode l
  linked : ∀ l m, u.Linked l m → t.Linked l m ∧ ¬ S l ∧ ¬ S m
  still : ∀ l m, l ≠ m → ¬ S l → ¬ S m → t.Linked l m → u.Linked l m

theorem without_refl (t : FileTree) : Without (fun _ => False) t t where
  gone _ h := h.elim
  entry _ _ := rfl
  mode _ _ := rfl
  linked _ _ h := ⟨h, not_false, not_false⟩
  still _ _ _ _ _ h := h

/-- Two names that are left are still names of one file. -/
theorem Linked.erase (h : t.Linked k m) (hne : k ≠ m) (hk : k ≠ l) (hm : m ≠ l) : (t.erase l).Linked k m := by
  obtain ⟨group, hgroup, hkg, hmg⟩ := h
  have hstays {x : Location} (hx : x ∈ group) (hxl : x ≠ l) :
      x ∈ group.filterMap fun x => if x = l then none else some x :=
    List.mem_filterMap.2 ⟨x, hx, if_neg hxl⟩
  have hkg := hstays hkg hk
  have hmg := hstays hmg hm
  refine ⟨_, List.mem_filter.2 ⟨List.mem_map_of_mem hgroup, decide_eq_true ?_⟩, hkg, hmg⟩
  -- with two different names left, the file has more than one
  by_contra hfew
  obtain ⟨x, hx⟩ := List.length_eq_one_iff.1 (Nat.le_antisymm (Nat.not_lt.1 hfew) (List.length_pos_of_mem hkg))
  rw [hx, List.mem_singleton] at hkg hmg
  exact hne (hkg.trans hmg.symm)

theorem without_erase (hl : l ≠ []) : Without (· = l) t (t.erase l) where
  gone k hk := by rw [node?_erase hl, if_pos hk]
  entry k hk := by rw [node?_erase hl, if_neg hk]
  mode k hk := by
    rw [mode, mode, node?_erase hl, if_neg hk, erase, reindex]
    dsimp only
    rw [lookup_erase, if_neg hk]
  linked k m h := by
    obtain ⟨group, hgroup, hk, hm⟩ := h
    obtain ⟨old, hold, hmem⟩ := mem_links_erase hgroup
    exact ⟨⟨old, hold, (hmem k hk).1, (hmem m hm).1⟩, (hmem k hk).2, (hmem m hm).2⟩
  still _ _ hne hk hm h := h.erase hne hk hm

namespace Without

theorem trans (h : Without S t u) (h' : Without S' u v) : Without (fun l => S l ∨ S' l) t v where
  gone l hl := by
    by_cases hl' : S' l
    · exact h'.gone l hl'
    · rw [h'.entry l hl', h.gone l (hl.resolve_right hl')]
  entry l hl := by
    rw [not_or] at hl
    rw [h'.entry l hl.2, h.entry l hl.1]
  mode l hl := by
    rw [not_or] at hl
    rw [h'.mode l hl.2, h.mode l hl.1]
  linked l m hlinked := by
    obtain ⟨hlinked, hl', hm'⟩ := h'.linked l m hlinked
    obtain ⟨hlinked, hl, hm⟩ := h.linked l m hlinked
    exact ⟨hlinked, not_or.2 ⟨hl, hl'⟩, not_or.2 ⟨hm, hm'⟩⟩
  still l m hne hl hm hlinked := by
    rw [not_or] at hl hm
    exact h'.still l m hne hl.2 hm.2 (h.still l m hne hl.1 hm.1 hlinked)

theorem wellLinked (h : Without S t u) (hw : t.WellLinked) : u.WellLinked := by
  intro group hgroup l hl
  obtain ⟨⟨old, hold, hl', -⟩, hstays, -⟩ := h.linked l l ⟨group, hgroup, hl, hl⟩
  rw [h.entry l hstays]
  exact hw old hold l hl'

end Without

end Bundler.FileTree
