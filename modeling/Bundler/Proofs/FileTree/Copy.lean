import Bundler.Proofs.FileTree.Trail
/-!
# Copying files

A file is copied where its target can be written (`copy_ok`), and nowhere else (`copy_error`), unless the
two are one file. Nothing else is touched (`touched_copy`).
-/

namespace Bundler.FileTree

variable {t t' : FileTree} {src dst : Path} {l : Location} {content : Bytes}

/-- Why a file cannot be written does not depend on its content. -/
theorem write_error {e : IoError} (h : t.write dst content = .error e) (other : Bytes) :
    t.write dst other = .error e := by
  unfold write at h ⊢
  split at h
  · exact h
  · exact h
  · split at h
    · next hslash => rw [if_pos hslash]; exact h
    next hslash =>
    rw [if_neg hslash]
    split at h
    · exact h
    · cases h

/-- A file is copied by emptying the copy, which may then get other permission bits, and writing what is in the file
now. -/
theorem copy_of_emptied {emptied : FileTree} (hl : t.locate src = .ok l) (hnode : t.node? l = some (.file content))
    (hempty : t.write dst [] = .ok emptied) :
    ∃ marked : FileTree, marked.entries = emptied.entries ∧ marked.links = emptied.links ∧
      t.copy src dst = match emptied.node? l with
        | some (.file now) => marked.write dst now
        | _ => .ok marked := by
  unfold copy
  rw [hl]
  dsimp only
  rw [hnode]
  dsimp only
  rw [hempty]
  dsimp only
  cases emptied.locate dst with
  | error e => exact ⟨emptied, rfl, rfl, rfl⟩
  | ok m =>
    dsimp only
    by_cases hmode : emptied.mode m = t.mode l
    · rw [if_pos hmode]
      exact ⟨emptied, rfl, rfl, rfl⟩
    · rw [if_neg hmode]
      exact ⟨emptied.setMode m (t.mode l), rfl, rfl, rfl⟩

theorem copy_error {e : IoError} (hread : t.read src = .ok content) (h : t.write dst content = .error e) :
    t.copy src dst = .error e := by
  obtain ⟨l, hl, hnode⟩ := locate_of_read hread
  unfold copy
  rw [hl]
  dsimp only
  rw [hnode]
  dsimp only
  rw [write_error h []]

/-- A file that was emptied is written once more, whatever its permission bits are now. -/
theorem write_emptied {emptied marked : FileTree} (hempty : t.write dst [] = .ok emptied) (ha : t.Alone (place dst))
    (hentries : marked.entries = emptied.entries) (hlinks : marked.links = emptied.links) (content : Bytes) :
    ∃ u, marked.write dst content = .ok u ∧ u.node? (place dst) = some (.file content) ∧
      Touched (· = place dst) (fun _ => False) t u := by
  have hsame (k : Location) : marked.node? k = emptied.node? k := by rw [node?, node?, hentries]
  have hfirst := touched_write hempty ha
  have hsecond : Touched (· = place dst) (fun _ => False) emptied marked :=
    ⟨fun k _ => .inl (hsame k), fun k hk => (hsame k).trans hk, fun k _ hk => (hsame k).symm.trans hk, hlinks⟩
  obtain ⟨again, hagain⟩ := write_again hempty ha content
  have hcongr := @write_congr emptied marked dst (fun k _ => .of_eq (hsame k)) content
  rw [hagain] at hcongr
  cases hwrite : marked.write dst content with
  | error e =>
    rw [hwrite] at hcongr
    cases hcongr
  | ok u =>
    have hthird := touched_write hwrite ((hfirst.trans hsecond).alone ha)
    exact ⟨u, rfl, node?_write hwrite, (hfirst.trans hsecond).trans hthird⟩

/-- A file is copied where its copy can be written. -/
theorem copy_ok (hread : t.read src = .ok content) (ha : t.Alone (place dst)) (hne : place src ≠ place dst)
    (h : t.write dst content = .ok t') :
    ∃ u, t.copy src dst = .ok u ∧ u.node? (place dst) = some (.file content) ∧
      Touched (· = place dst) (fun _ => False) t u := by
  obtain ⟨l, hl, hnode⟩ := locate_of_read hread
  have hempty := write_of_write h []
  -- the source is not the copy, so it still has its content
  have hsource : (t.put (place dst) (.file [])).node? l = some (.file content) := by
    rw [(touched_write hempty ha).same (locate_eq hl ▸ hne) fun hw => hw.elim, hnode]
  obtain ⟨marked, hentries, hlinks, hcopy⟩ := copy_of_emptied hl hnode hempty
  rw [hsource] at hcopy
  rw [hcopy]
  exact write_emptied hempty ha hentries hlinks content

/-- What a copy holds once it is made. -/
theorem touched_copy (hread : t.read src = .ok content) (ha : t.Alone (place dst)) (hne : place src ≠ place dst)
    (h : t.copy src dst = .ok t') :
    t'.node? (place dst) = some (.file content) ∧ Touched (· = place dst) (fun _ => False) t t' := by
  cases hwrite : t.write dst content with
  | error e =>
    rw [copy_error hread hwrite] at h
    cases h
  | ok written =>
    obtain ⟨u, hcopy, hmade⟩ := copy_ok hread ha hne hwrite
    obtain rfl : u = t' := Except.ok.inj (hcopy.symm.trans h)
    exact hmade

end Bundler.FileTree
