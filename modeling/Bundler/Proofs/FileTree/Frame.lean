import Bundler.Proofs.FileTree.Change
import Bundler.Proofs.FileTree.Spelling
/-!
# What writing leaves alone

Writing a file that stands alone changes the tree at its place only (`sameBut_write`). Directories stay what
they are, so every other path is read as before (`SameBut.read_iff`), and a file that was written can be
written again (`write_again`). Where something was read in a directory, the directory need not be made
(`makeDirectories_of_read`).
-/

namespace Bundler.FileTree

variable {t t' t'' : FileTree} {p dir : Path} {here l : Location} {S S' : Location → Prop} {content other : Bytes}
  {name : String}

/-- Two trees that differ at some places only, and there in files. -/
structure SameBut (S : Location → Prop) (t t' : FileTree) : Prop where
  entry : ∀ l, ¬ S l → t'.node? l = t.node? l
  directory : ∀ l, t'.node? l = some .directory ↔ t.node? l = some .directory
  there : ∀ l, (t.node? l).isSome → (t'.node? l).isSome
  links : t'.links = t.links

/-! ## Places that were not written -/

namespace SameBut

theorem refl (S : Location → Prop) (t : FileTree) : SameBut S t t :=
  ⟨fun _ _ => rfl, fun _ => Iff.rfl, fun _ h => h, rfl⟩

theorem trans (h : SameBut S t t') (h' : SameBut S t' t'') : SameBut S t t'' where
  entry l hl := (h'.entry l hl).trans (h.entry l hl)
  directory l := (h'.directory l).trans (h.directory l)
  there l hl := h'.there l (h.there l hl)
  links := h'.links.trans h.links

theorem mono (h : SameBut S t t') (hS : ∀ l, S l → S' l) : SameBut S' t t' :=
  { h with entry := fun l hl => h.entry l fun hs => hl (hS l hs) }

theorem alone (h : SameBut S t t') (ha : t.Alone l) : t'.Alone l := by
  unfold Alone
  rw [h.links]
  exact ha

theorem read_iff (h : SameBut S t t') (hp : ¬ S (place p)) : t'.read p = .ok content ↔ t.read p = .ok content := by
  constructor
  · intro hr
    exact read_of_directories (fun k => (h.directory k).1) ((h.entry _ hp).symm.trans (node?_of_read hr)) hr
  · intro hr
    exact read_of_directories (fun k => (h.directory k).2) ((h.entry _ hp).trans (node?_of_read hr)) hr

/-- A file stays a file, whatever is in it now. -/
theorem exists_file (h : SameBut S t t') (hfile : t.node? l = some (.file content)) :
    ∃ content', t'.node? l = some (.file content') := by
  have hthere := h.there l (by rw [hfile]; rfl)
  have hnot : t'.node? l ≠ some .directory := by
    rw [ne_eq, h.directory, hfile]
    nofun
  cases hnode : t'.node? l with
  | none => rw [hnode] at hthere; cases hthere
  | some n =>
    cases n with
    | directory => exact absurd hnode hnot
    | file content' => exact ⟨content', rfl⟩

/-- A file that could be read can still be read. -/
theorem exists_read (h : SameBut S t t') (hr : t.read p = .ok content) : ∃ content', t'.read p = .ok content' := by
  obtain ⟨content', hnode⟩ := h.exists_file (node?_of_read hr)
  exact ⟨content', read_of_directories (fun k => (h.directory k).2) hnode hr⟩

theorem wellLinked (h : SameBut S t t') (hw : t.WellLinked) : t'.WellLinked := by
  intro group hgroup l hl
  obtain ⟨content, hfile⟩ := hw group (h.links ▸ hgroup) l hl
  exact h.exists_file hfile

theorem aim {parent : Location} {slash : Bool} (h : SameBut S t t') (ha : t.aim p = .ok (.name parent name slash)) :
    t'.aim p = .ok (.name parent name slash) := aim_of_directories (fun k => (h.directory k).2) ha

end SameBut

/-! ## Writing -/

theorem sameBut_write (h : t.write p content = .ok t') (ha : t.Alone (place p)) : SameBut (· = place p) t t' := by
  obtain ⟨hne, hnode, rfl⟩ := write_eq h
  have hput (l : Location) : (t.put (place p) (.file content)).node? l =
      if l = place p then some (.file content) else t.node? l := by
    by_cases hl : l = []
    · subst hl
      rw [if_neg hne.symm]
      rfl
    · rw [node?_put _ _ _ hl, names_of_alone ha]
      simp only [List.mem_singleton]
  refine ⟨fun l hl => ?_, fun l => ?_, fun l hl => ?_, rfl⟩
  · rw [hput, if_neg hl]
  · rw [hput]
    split
    · next heq =>
      subst heq
      exact iff_of_false nofun hnode
    · rfl
  · rw [hput]
    split
    · rfl
    · exact hl

/-- What can be written in one tree can be written in the other. -/
theorem SameBut.exists_write {u : FileTree} (h : SameBut S t t') (hwrite : t.write p content = .ok u) (other : Bytes) :
    ∃ u', t'.write p other = .ok u' := by
  obtain ⟨parent, name, haim, hnode, -⟩ := write_eq_ok.1 hwrite
  exact ⟨_, write_eq_ok.2 ⟨parent, name, h.aim haim, fun hdir => hnode ((h.directory _).1 hdir), rfl⟩⟩

/-- A file that was written can be written again. -/
theorem write_again (h : t.write p content = .ok t') (ha : t.Alone (place p)) (other : Bytes) :
    ∃ t'', t'.write p other = .ok t'' := (sameBut_write h ha).exists_write h other

/-! ## A directory that is there -/

theorem place_join_name (dir : Path) (hname : IsName name) (hslash : '/' ∉ name.toList) :
    place (dir.join ⟨name⟩) = place dir ++ [name] := by
  rw [place_join, Path.isAbsolute_of_notMem hslash, if_neg Bool.false_ne_true, Path.pieces_of_notMem hslash,
    List.foldl_cons, List.foldl_nil, walk_name hname]

/-- A name is added behind the pieces of its directory, where a slash at the end makes no piece. -/
theorem pieces_join_name (hslash : '/' ∉ name.toList) (hdir : dir.text ≠ "") :
    ∃ ps more, (dir.join ⟨name⟩).text = dir.text ++ more ∧ (dir.join ⟨name⟩).pieces = ps ++ [name] ∧
      (dir.pieces = ps ∨ dir.pieces = ps ++ [""]) := by
  have hname : (Path.splitSlash name.toList).map String.ofList = [name] := Path.pieces_of_notMem (p := ⟨name⟩) hslash
  have hnonempty : dir.text.toList ≠ [] := fun h => hdir (String.toList_inj.1 h)
  unfold Path.join
  rw [Path.isAbsolute_of_notMem hslash, if_neg Bool.false_ne_true]
  split
  · next hend =>
    obtain ⟨front, hfront⟩ := List.getLast?_eq_some_iff.1 (hend.resolve_left hnonempty)
    refine ⟨(Path.splitSlash front).map String.ofList, name, rfl, ?_, .inr ?_⟩
    · rw [Path.pieces, String.toList_append, hfront, List.append_assoc, List.singleton_append,
        Path.splitSlash_append_slash, List.map_append, hname]
    · rw [Path.pieces, hfront, Path.splitSlash_append_slash, List.map_append]
      rfl
  · refine ⟨dir.pieces, "/" ++ name, String.append_assoc, ?_, .inl rfl⟩
    rw [Path.pieces, String.toList_append, String.toList_append, List.append_assoc]
    show (Path.splitSlash (dir.text.toList ++ '/' :: name.toList)).map String.ofList = _
    rw [Path.splitSlash_append_slash, List.map_append, hname]
    rfl

/-- The beginning of a path is no longer than the path. -/
theorem pieces_of_longer {ps : List String} {more : String} (h : pieces p = .ok ps)
    (htext : p.text = dir.text ++ more) (hdir : dir.text ≠ "") : pieces dir = .ok dir.pieces := by
  obtain ⟨hnul, -, hlong⟩ := pieces_eq_ok_iff.1 (pieces_eq h ▸ h)
  rw [htext, String.toList_append] at hnul
  rw [htext, String.utf8ByteSize_append] at hlong
  exact pieces_eq_ok_iff.2 ⟨fun hmem => hnul (List.mem_append_left _ hmem), hdir, by omega⟩

/-- Where a name was read, the path of the directory denotes one. -/
theorem isDirectory_of_read (hname : IsName name) (hslash : '/' ∉ name.toList) (hdir : dir.text ≠ "")
    (h : t.read (dir.join ⟨name⟩) = .ok content) : t.isDirectory dir = true := by
  obtain ⟨l, hl, -⟩ := locate_of_read h
  obtain ⟨htaken, hfollow⟩ := locate_eq_ok.1 hl
  obtain ⟨ps, more, htext, hpieces, hdirPieces⟩ := pieces_join_name hslash hdir
  rw [hpieces] at hfollow
  obtain ⟨d, hd, hnode, -⟩ := follow_append_name hname hfollow
  have hthere : t.follow [] dir.pieces = .ok d := by
    rcases hdirPieces with heq | heq
    · rw [heq, hd]
    · rw [heq, follow_append [""] hd, follow_of_empty (by simp) hnode]
  simp [isDirectory, at?, locate, pieces_of_longer htaken htext hdir, hthere, hnode]

/-- Where an operation is given the name of a directory, the directory is there. -/
theorem isDirectory_of_aim {parent : Location} {slash : Bool} (haim : t.aim p = .ok (.name parent name slash))
    (hnode : t.node? (parent ++ [name]) = some .directory) : t.isDirectory p = true := by
  obtain ⟨front, behind, hps, hbehind, -, hname, hlen, hfollow, hdir⟩ := aim_eq_name.1 haim
  have hfound : t.follow [] (front ++ name :: behind) = .ok (parent ++ [name]) := by
    rw [follow_append _ hfollow, follow_cons_eq_ok, walk_name hname]
    exact ⟨hdir, hlen, follow_of_empty hbehind hnode⟩
  rw [isDirectory_iff, at?_eq_some, ← pieces_eq hps, (aim_name haim).2]
  exact ⟨hps, hfound, hnode⟩

/-- A directory that is there is left as it is. -/
theorem ensureDirectory_of_isDirectory (h : t.isDirectory p = true) : t.ensureDirectory p = .ok t := by
  unfold ensureDirectory
  split
  · next hmake =>
    -- a directory that is made was not there
    obtain ⟨-, hnone, -⟩ := makeDirectory_eq hmake
    rw [(at?_eq_some.1 (isDirectory_iff.1 h)).2.2] at hnone
    cases hnone
  · rw [if_pos h]

theorem exists_ancestry (n : Nat) (p : Path) : ∃ parents, ancestry n p = p :: parents := by
  cases n with
  | zero => exact ⟨[], rfl⟩
  | succ n =>
    rw [ancestry]
    split <;> exact ⟨_, rfl⟩

theorem makeDirectories_of_isDirectory (h : t.isDirectory dir = true) : t.makeDirectories dir = (t, .ok ()) := by
  obtain ⟨parents, hancestry⟩ := exists_ancestry dir.components.length dir
  rw [makeDirectories, hancestry, ensureAll]
  split
  · rfl
  · rw [ensureDirectory_of_isDirectory h]

/-- Where something was read in a directory, the directory need not be made. -/
theorem makeDirectories_of_read (hname : IsName name) (hslash : '/' ∉ name.toList)
    (h : t.read (dir.join ⟨name⟩) = .ok content) : t.makeDirectories dir = (t, .ok ()) := by
  by_cases hdir : dir.text = ""
  · obtain ⟨parents, hancestry⟩ := exists_ancestry dir.components.length dir
    rw [makeDirectories, hancestry, ensureAll, if_pos hdir]
  · exact makeDirectories_of_isDirectory (isDirectory_of_read hname hslash hdir h)

end Bundler.FileTree
