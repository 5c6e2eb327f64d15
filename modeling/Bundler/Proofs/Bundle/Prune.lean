import Bundler.Proofs.Bundle.Manifest
import Bundler.Proofs.FileTree.Removed
/-!
# What pruning removes

Pruning goes through the names that only the older manifest has, and removes each file that it finds under one of them
(`removeAll_spec`). So it takes away exactly the files that these names denote, each once, and changes nothing else
(`prune_exact`). Names are compared as texts but used as paths: only of names that lead straight down is it known that
they stay in the directory, and that different ones denote different files (`Straight.eq_of_place`).
-/

namespace Bundler.Manifest

open FileTree

variable {m current : Manifest} {dir : Path} {t : FileTree} {name other : String} {l : Location}

/-! ## Names of a directory -/

/-- Seen from a directory, a name denotes the file at a location. -/
def Denotes (t : FileTree) (dir : Path) (name : String) (l : Location) : Prop :=
  t.isFile (dir.join ⟨name⟩) = true ∧ place (dir.join ⟨name⟩) = l

instance : Decidable (Denotes t dir name l) := inferInstanceAs (Decidable (_ ∧ _))

theorem Denotes.node? (h : Denotes t dir name l) : ∃ content, t.node? l = some (.file content) := by
  obtain ⟨hfile, rfl⟩ := h
  exact node?_of_isFile hfile

theorem denotes_erase {k : Location} (h : Denotes t dir name l) :
    Denotes (t.erase l) dir other k ↔ Denotes t dir other k ∧ k ≠ l := by
  obtain ⟨content, hnode⟩ := h.node?
  unfold Denotes
  rw [isFile_erase hnode]
  constructor
  · rintro ⟨⟨hfile, hne⟩, rfl⟩
    exact ⟨⟨hfile, rfl⟩, hne⟩
  · rintro ⟨⟨hfile, rfl⟩, hne⟩
    exact ⟨⟨hfile, hne⟩, rfl⟩

/-- Nothing in the name is empty or a dot or leads up. -/
def Straight (name : String) : Prop := ∀ piece ∈ (Path.mk name).pieces, IsName piece

theorem straight_of_isName (hname : IsName name) (hslash : '/' ∉ name.toList) : Straight name := by
  intro piece hpiece
  rw [Path.pieces_of_notMem hslash, List.mem_singleton] at hpiece
  exact hpiece ▸ hname

namespace Straight

theorem place_join (h : Straight name) (dir : Path) : place (dir.join ⟨name⟩) = place dir ++ (Path.mk name).pieces := by
  have hrelative : (Path.mk name).isAbsolute = false := by
    rw [← Bool.not_eq_true]
    intro habs
    obtain ⟨rest, hrest⟩ := Path.pieces_of_isAbsolute habs
    exact (h "" (hrest ▸ List.mem_cons_self)).1 rfl
  rw [FileTree.place_join, hrelative, if_neg Bool.false_ne_true, foldl_walk_names h]

theorem inside (h : Straight name) (dir : Path) : Inside (place dir) (place (dir.join ⟨name⟩)) := by
  rw [h.place_join]
  exact ⟨List.prefix_append _ _, by simpa using Path.pieces_ne_nil ⟨name⟩⟩

/-- In one directory, different names denote different files. -/
theorem eq_of_place (h : Straight name) (h' : Straight other)
    (heq : place (dir.join ⟨name⟩) = place (dir.join ⟨other⟩)) : name = other := by
  rw [h.place_join, h'.place_join, List.append_cancel_left_eq] at heq
  exact congrArg Path.text (Path.eq_of_pieces heq)

end Straight

/-! ## Removing -/

seal FileTree.removeFile in
theorem removeAll_cons (name : String) (rest : List String) (t : FileTree) (n : Nat) :
    removeAll dir (name :: rest) (t, n) =
      match t.removeFile (dir.join ⟨name⟩) with
      | .ok t => removeAll dir rest (t, n + 1)
      | .error _ => removeAll dir rest (t, n) := rfl

/-- The files that the names denote are taken away one after the other, and counted. A file with several spellings is
found under the first of them only. -/
theorem removeAll_spec (dir : Path) (names : List String) (t : FileTree) (n : Nat) :
    ∃ removed : List Location, (removeAll dir names (t, n)).2 = n + removed.length ∧ removed.Nodup ∧
      Without (· ∈ removed) t (removeAll dir names (t, n)).1 ∧
      ∀ l, l ∈ removed ↔ ∃ name ∈ names, Denotes t dir name l := by
  induction names generalizing t n with
  | nil =>
    refine ⟨[], rfl, List.nodup_nil, ?_, fun l => by simp⟩
    simp only [List.not_mem_nil]
    exact without_refl t
  | cons name rest ih =>
    by_cases hfile : t.isFile (dir.join ⟨name⟩) = true
    · have hdenotes : Denotes t dir name (place (dir.join ⟨name⟩)) := ⟨hfile, rfl⟩
      obtain ⟨content, hnode⟩ := hdenotes.node?
      obtain ⟨removed, hcount, hnodup, hwithout, hmem⟩ := ih (t.erase (place (dir.join ⟨name⟩))) (n + 1)
      simp only [denotes_erase hdenotes] at hmem
      rw [removeAll_cons, removeFile_of_isFile hfile]
      refine ⟨place (dir.join ⟨name⟩) :: removed, ?_, List.nodup_cons.2 ⟨?_, hnodup⟩, ?_, fun l => ?_⟩
      · rw [List.length_cons, Nat.add_comm removed.length, ← Nat.add_assoc]
        exact hcount
      · rw [hmem]
        rintro ⟨-, -, -, hne⟩
        exact hne rfl
      · simp only [List.mem_cons]
        exact (without_erase (ne_nil_of_file hnode)).trans hwithout
      · rw [List.mem_cons, hmem, List.exists_mem_cons_iff]
        by_cases hl : l = place (dir.join ⟨name⟩)
        · simp [hl, hdenotes]
        · have hother : ¬ Denotes t dir name l := fun h => hl h.2.symm
          simp [hl, hother]
    · obtain ⟨removed, hrest⟩ := ih t n
      have hother (l : Location) : ¬ Denotes t dir name l := fun h => hfile h.1
      rw [removeAll_cons]
      simp only [List.exists_mem_cons_iff, hother, false_or]
      cases hremove : t.removeFile (dir.join ⟨name⟩) with
      | ok u => exact absurd (isFile_of_removeFile hremove) hfile
      | error e => exact ⟨removed, hrest⟩

theorem mem_stale : name ∈ m.stale current ↔ name ∈ m.files ∧ name ∉ current.files := by
  simp [stale]

/-! ## Pruning -/

/-- Pruning takes away the files that a name denotes which the older manifest has and the current one has not. It
counts them and changes nothing else. If the names of the older manifest lead straight down, what it takes away is in
the directory, and if those of the current one do as well, it is in use under none of them. -/
theorem prune_exact (m current : Manifest) (dir : Path) (t : FileTree) :
    ∃ removed : List Location,
      (m.prune dir current t).2 = removed.length ∧ removed.Nodup ∧
      Without (· ∈ removed) t (m.prune dir current t).1 ∧
      (∀ l, l ∈ removed ↔ ∃ name ∈ m.files, name ∉ current.files ∧ Denotes t dir name l) ∧
      ((∀ name ∈ m.files, Straight name) →
        (∀ l ∈ removed, Inside (place dir) l) ∧
          ((∀ name ∈ current.files, Straight name) →
            ∀ name ∈ current.files, ∀ l, Denotes t dir name l → l ∉ removed)) := by
  obtain ⟨removed, hcount, hnodup, hwithout, hmem⟩ := removeAll_spec dir (m.stale current) t 0
  simp only [mem_stale, and_assoc] at hmem
  refine ⟨removed, hcount.trans (Nat.zero_add _), hnodup, hwithout, hmem, fun hstraight => ⟨?_, ?_⟩⟩
  · intro l hl
    obtain ⟨name, hname, -, -, rfl⟩ := (hmem l).1 hl
    exact (hstraight name hname).inside dir
  · rintro hcurrent name hname _ ⟨-, rfl⟩ hl
    obtain ⟨other, hother, hnot, -, hplace⟩ := (hmem _).1 hl
    cases (hstraight other hother).eq_of_place (hcurrent name hname) hplace
    exact hnot hname

/-- A manifest that spells the name of a file with a dot, and names a file of another directory. -/
def stray : Manifest := empty.register "./a" "./a.js" ["../src/a.js"]

/-- A manifest of plain names. -/
def plain (name : String) : Manifest := empty.register "./main" name []

/-- Two files of a directory with a manifest, and a file of another directory. -/
def besideStray : FileTree :=
  ⟨[(["dist"], .directory), (["src"], .directory), (["dist", "a.js"], .file [0x78]), (["dist", "b.js"], .file []),
    (["src", "a.js"], .file [0x79]), (["dist", "manifest.json"], .file (Utf8.encode stray.toJson))], [], []⟩

/-- A manifest can be loaded whose names lead elsewhere, or to a file in use: both are gone. Of plain names only the
stale one is. -/
theorem prune_stray :
    load besideStray ⟨"dist/manifest.json"⟩ = .ok (some stray) ∧
      ((stray.prune ⟨"dist"⟩ (plain "a.js") besideStray).1.node? ["dist", "a.js"] = none ∧
        (stray.prune ⟨"dist"⟩ (plain "a.js") besideStray).1.node? ["src", "a.js"] = none) ∧
      ((plain "b.js").prune ⟨"dist"⟩ (plain "a.js") besideStray).1.node? ["dist", "b.js"] = none ∧
        ((plain "b.js").prune ⟨"dist"⟩ (plain "a.js") besideStray).1.node? ["dist", "a.js"] = some (.file [0x78]) := by
  have hload : load besideStray ⟨"dist/manifest.json"⟩ = .ok (some stray) := by
    have hread : besideStray.read ⟨"dist/manifest.json"⟩ = .ok (Utf8.encode stray.toJson) := rfl
    rw [load, hread]
    dsimp only
    rw [decode_toJson]
  have hstraight {file : String} (hname : IsName file) (hslash : '/' ∉ file.toList) :
      ∀ name ∈ (plain file).files, Straight name := by
    intro name hmem
    have hfile : name = file := List.mem_singleton.1 hmem
    exact hfile ▸ straight_of_isName hname hslash
  obtain ⟨removed, -, -, hwithout, hmem, -⟩ := prune_exact stray (plain "a.js") ⟨"dist"⟩ besideStray
  obtain ⟨removed', -, -, hwithout', hmem', hrest⟩ := prune_exact (plain "b.js") (plain "a.js") ⟨"dist"⟩ besideStray
  obtain ⟨-, hused⟩ := hrest (hstraight (isName_of_length (by decide)) (by decide))
  have hused := hused (hstraight (isName_of_length (by decide)) (by decide)) "a.js" (by decide) ["dist", "a.js"]
    (by decide)
  refine ⟨hload, ⟨hwithout.gone _ ((hmem _).2 ⟨"./a.js", by decide⟩),
    hwithout.gone _ ((hmem _).2 ⟨"../src/a.js", by decide⟩)⟩,
    hwithout'.gone _ ((hmem' _).2 ⟨"b.js", by decide⟩), ?_⟩
  rw [hwithout'.entry _ hused]
  rfl

end Bundler.Manifest
