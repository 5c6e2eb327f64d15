import Bundler.Proofs.FileTree.Place
/-!
# What changes in a tree

A path is followed to the same place where its directories are still there (`follow_of_directories`). A file is
changed under all its names, a file that stands `Alone` under one. Making directories changes no entry
that is there: the tree `Grows`, and what could be read can still be read.
-/

namespace Bundler.FileTree

variable {t t' t'' : FileTree} {p : Path} {here l m : Location} {content : Bytes}

/-! ## Following the same directories -/

/-- A path is followed where its directories still are directories. -/
theorem follow_of_directories {ps : List String}
    (hdir : ∀ k, t.node? k = some .directory → t'.node? k = some .directory)
    (hl : (t'.node? l).isSome) (h : t.follow here ps = .ok l) : t'.follow here ps = .ok l := by
  induction ps generalizing here with
  | nil =>
    obtain ⟨rfl, -⟩ := follow_nil_eq_ok.1 h
    exact follow_nil_eq_ok.2 ⟨rfl, hl⟩
  | cons piece rest ih =>
    obtain ⟨hhere, hlen, hrest⟩ := follow_cons_eq_ok.1 h
    exact follow_cons_eq_ok.2 ⟨hdir _ hhere, hlen, ih hrest⟩

/-- An operation is given the same name where directories still are directories. -/
theorem aim_of_directories {parent : Location} {name : String} {slash : Bool}
    (hdir : ∀ k, t.node? k = some .directory → t'.node? k = some .directory)
    (h : t.aim p = .ok (.name parent name slash)) : t'.aim p = .ok (.name parent name slash) := by
  obtain ⟨front, behind, hps, hbehind, hslash, hname, hlen, hfollow, hparent⟩ := aim_eq_name.1 h
  have hparent' := hdir parent hparent
  exact aim_eq_name.2 ⟨front, behind, hps, hbehind, hslash, hname, hlen,
    follow_of_directories hdir (by rw [hparent']; rfl) hfollow, hparent'⟩

theorem read_of_directories {other : Bytes} (hdir : ∀ k, t.node? k = some .directory → t'.node? k = some .directory)
    (hkept : t'.node? (place p) = some (.file content)) (h : t.read p = .ok other) : t'.read p = .ok content := by
  rw [read_eq_ok, at?_eq_some] at h ⊢
  exact ⟨h.1, follow_of_directories hdir (by rw [hkept]; rfl) h.2.1, hkept⟩

/-! ## Names of a file -/

/-- What is at a location has no other name. -/
def Alone (t : FileTree) (l : Location) : Prop := ∀ group ∈ t.links, l ∉ group

/-- Only files have several names. -/
def WellLinked (t : FileTree) : Prop := ∀ group ∈ t.links, ∀ l ∈ group, ∃ content, t.node? l = some (.file content)

theorem self_mem_names (t : FileTree) (l : Location) : l ∈ t.names l := by
  unfold names
  cases hfind : t.links.find? fun group => group.contains l with
  | none => exact List.mem_singleton.2 rfl
  | some group => simpa using List.find?_some hfind

theorem names_of_alone (h : t.Alone l) : t.names l = [l] := by
  have hfind : t.links.find? (fun group => group.contains l) = none :=
    List.find?_eq_none.2 fun group hgroup => by simpa using h group hgroup
  rw [names, hfind, Option.getD_none]

/-- All names of a file that has several are in one group. -/
theorem mem_links_of_mem_names (h : m ∈ t.names l) (hne : m ≠ l) : ∃ group ∈ t.links, m ∈ group ∧ l ∈ group := by
  unfold names at h
  cases hfind : t.links.find? fun group => group.contains l with
  | none =>
    rw [hfind, Option.getD_none, List.mem_singleton] at h
    exact absurd h hne
  | some group =>
    rw [hfind, Option.getD_some] at h
    exact ⟨group, List.mem_of_find?_eq_some hfind, h, by simpa using List.find?_some hfind⟩

theorem WellLinked.alone (h : t.WellLinked) (hfile : ∀ content, t.node? l ≠ some (.file content)) : t.Alone l := by
  intro group hgroup hl
  obtain ⟨content, hcontent⟩ := h group hgroup l hl
  exact hfile content hcontent

/-! ## Writing -/

theorem node?_put_self (n : Node) (hl : l ≠ []) : (t.put l n).node? l = some n := by
  rw [node?_put _ _ _ hl, if_pos (t.self_mem_names l)]

theorem node?_put_of_alone (n : Node) (h : t.Alone m) (hne : m ≠ l) : (t.put l n).node? m = t.node? m := by
  by_cases hm : m = []
  · subst hm; rfl
  · rw [node?_put _ _ _ hm, if_neg]
    intro hmem
    obtain ⟨group, hgroup, hin, -⟩ := mem_links_of_mem_names hmem hne
    exact h group hgroup hin

/-- A file that is written holds what was written. -/
theorem node?_write (h : t.write p content = .ok t') : t'.node? (place p) = some (.file content) := by
  obtain ⟨hne, -, rfl⟩ := write_eq h
  exact node?_put_self _ hne

/-- What stands alone is changed under its own name only. -/
theorem node?_write_of_alone (h : t.write p content = .ok t') (hm : t.Alone m) (hne : m ≠ place p) :
    t'.node? m = t.node? m := by
  obtain ⟨-, -, rfl⟩ := write_eq h
  exact node?_put_of_alone _ hm hne

theorem links_write (h : t.write p content = .ok t') : t'.links = t.links := by
  obtain ⟨-, -, rfl⟩ := write_eq h
  rfl

theorem wellLinked_write (hw : t.WellLinked) (h : t.write p content = .ok t') : t'.WellLinked := by
  obtain ⟨hne, -, rfl⟩ := write_eq h
  intro group hgroup l hl
  obtain ⟨old, hold⟩ := hw group hgroup l hl
  have hl : l ≠ [] := by
    rintro rfl
    cases hold
  rw [node?_put _ _ _ hl]
  split
  · exact ⟨content, rfl⟩
  · exact ⟨old, hold⟩

/-! ## Making directories -/

/-- A tree with more directories. -/
structure Grows (t t' : FileTree) : Prop where
  kept : ∀ l n, t.node? l = some n → t'.node? l = some n
  made : ∀ l, t.node? l = none → t'.node? l = none ∨ t'.node? l = some .directory
  links : t'.links = t.links

namespace Grows

theorem refl (t : FileTree) : Grows t t := ⟨fun _ _ h => h, fun _ h => .inl h, rfl⟩

theorem trans (h : Grows t t') (h' : Grows t' t'') : Grows t t'' where
  kept l n hn := h'.kept l n (h.kept l n hn)
  made l hn := by
    rcases h.made l hn with hn | hn
    · exact h'.made l hn
    · exact .inr (h'.kept l _ hn)
  links := h'.links.trans h.links

theorem wellLinked (h : Grows t t') (hw : t.WellLinked) : t'.WellLinked := by
  intro group hgroup l hl
  obtain ⟨content, hcontent⟩ := hw group (h.links ▸ hgroup) l hl
  exact ⟨content, h.kept l _ hcontent⟩

theorem alone (h : Grows t t') (ha : t.Alone l) : t'.Alone l := by
  unfold Alone
  rw [h.links]
  exact ha

/-- No file is made. -/
theorem file_iff (h : Grows t t') : t'.node? l = some (.file content) ↔ t.node? l = some (.file content) := by
  refine ⟨fun hfile => ?_, h.kept l _⟩
  cases hn : t.node? l with
  | none => rcases h.made l hn with hn' | hn' <;> rw [hn'] at hfile <;> cases hfile
  | some n => rw [← hfile, h.kept l n hn]

theorem directory (h : Grows t t') (k : Location) : t.node? k = some .directory → t'.node? k = some .directory :=
  h.kept k .directory

/-- What could be read can still be read. -/
theorem read (h : Grows t t') (hr : t.read p = .ok content) : t'.read p = .ok content :=
  read_of_directories h.directory (h.kept _ _ (node?_of_read hr)) hr

end Grows

theorem grows_makeDirectory (hw : t.WellLinked) (h : t.makeDirectory p = .ok t') : Grows t t' := by
  obtain ⟨hne, hnone, rfl⟩ := makeDirectory_eq h
  have halone : t.Alone (place p) := hw.alone fun content => by simp [hnone]
  have hnode (l : Location) : (t.put (place p) .directory).node? l =
      if l = place p then some .directory else t.node? l := by
    by_cases hl : l = []
    · subst hl; rw [if_neg hne.symm]; rfl
    · rw [node?_put _ _ _ hl, names_of_alone halone]
      simp only [List.mem_singleton]
  refine ⟨fun l n hn => ?_, fun l hn => ?_, rfl⟩
  · rw [hnode, if_neg, hn]
    rintro rfl
    rw [hnone] at hn
    cases hn
  · rw [hnode]
    split
    · exact .inr rfl
    · exact .inl hn

theorem grows_ensureDirectory (hw : t.WellLinked) (h : t.ensureDirectory p = .ok t') : Grows t t' := by
  rcases ensureDirectory_cases h with hmake | ⟨rfl, -⟩
  · exact grows_makeDirectory hw hmake
  · exact .refl _

theorem grows_ensureAll (hw : t.WellLinked) (paths : List Path) : Grows t (t.ensureAll paths).1 := by
  induction paths with
  | nil => exact .refl t
  | cons p parents ih =>
    unfold ensureAll
    split
    · exact .refl t
    · split
      · next hp => exact grows_ensureDirectory hw hp
      · split
        · next hparents => rw [hparents] at ih; exact ih
        · next hparents =>
          rw [hparents] at ih
          split
          · next hp => exact ih.trans (grows_ensureDirectory (ih.wellLinked hw) hp)
          · exact ih
      · exact .refl t

/-- Making the directory that a path lies in changes no entry that is there, whether it succeeds or not. -/
theorem grows_makeParent (hw : t.WellLinked) (p : Path) : Grows t (t.makeParent p).1 := by
  unfold makeParent
  split
  · exact .refl t
  · exact grows_ensureAll hw _

end Bundler.FileTree
