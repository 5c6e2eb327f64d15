import Bundler.Proofs.FileTree.Trail
/-!
# Files in a directory

A file of a directory can be read by its name as long as the directory's path leads through directories
(`read_of_reached`). What was written is read back (`read_of_write`). A file with several names is changed under all of
them: writing one changes nothing else (`sameBut_names`).
-/

namespace Bundler.FileTree

open Bundler.Path (Component)

variable {t t' u : FileTree} {dir p : Path} {k l m : Location} {name : String} {content other : Bytes}

/-- All that a path leads through is there and a directory. -/
def Reached (t : FileTree) (p : Path) : Prop := ∀ k ∈ trail p, t.node? k = some .directory

/-- A location lies in a directory, at whatever depth. -/
def Inside (dir l : Location) : Prop := dir <+: l ∧ l ≠ dir

theorem inside_name (dir : Location) (name : String) : Inside dir (dir ++ [name]) :=
  ⟨List.prefix_append _ _, by simp⟩

/-! ## Names in a directory -/

section Names

variable (hname : IsName name) (hslash : '/' ∉ name.toList)
include hname hslash

/-- A path of a name in a directory leads through the directory's path. -/
theorem mem_trail_join : k ∈ trail (dir.join ⟨name⟩) ↔ k ∈ trail dir ∨ k = place dir ++ [name] := by
  have hspelled : Spelled [name] := fun s hs => by
    rw [List.mem_singleton.1 hs]
    exact ⟨hname, hslash⟩
  have hcomponents := components_join_names dir (List.cons_ne_nil name []) hspelled
  rw [String.intercalate_singleton] at hcomponents
  rw [trail, hcomponents, mem_along_append, ← place_eq_foldl]
  simp only [List.map_cons, List.map_nil, along, enter, List.mem_cons, List.not_mem_nil, or_false]
  constructor
  · rintro (h | rfl | h)
    · exact .inl h
    · exact .inl (place_mem_trail dir)
    · exact .inr h
  · rintro (h | h)
    · exact .inl h
    · exact .inr (.inr h)

omit hname in
/-- The pieces of a path of a name in a directory: those of the directory lead through all of its path. -/
theorem exists_pieces_join : ∃ ps, (dir.join ⟨name⟩).pieces = ps ++ [name] ∧
    ∀ k ∈ trail dir, k ∈ along [] (ps.filterMap Component.ofPiece) := by
  by_cases hdir : dir.text = ""
  · obtain rfl : dir = ⟨""⟩ := Path.eq_of_text hdir
    refine ⟨[], ?_, fun k hk => hk⟩
    have htext : (Path.mk "").join ⟨name⟩ = ⟨name⟩ :=
      Path.eq_of_text (by rw [Path.text_join (Path.isAbsolute_of_notMem hslash)]; simp)
    rw [htext, Path.pieces_of_notMem hslash, List.nil_append]
  · obtain ⟨ps, more, -, hpieces, hdirPieces⟩ := pieces_join_name hslash hdir
    refine ⟨ps, hpieces, fun k hk => ?_⟩
    have hk := mem_along_of_mem_trail hk
    rcases hdirPieces with heq | heq <;> rw [heq] at hk
    · exact hk
    · rw [List.filterMap_append] at hk
      simpa [Component.ofPiece] using hk

/-- Where a name was read in a directory, the directory's path leads to it. -/
theorem reached_of_read (h : t.read (dir.join ⟨name⟩) = .ok content) : t.Reached dir := by
  obtain ⟨ps, hpieces, htrail⟩ := exists_pieces_join hslash
  obtain ⟨-, hfollow, -⟩ := at?_eq_some.1 (read_eq_ok.1 h)
  rw [hpieces] at hfollow
  obtain ⟨d, hd, hnode, -⟩ := follow_append_name hname hfollow
  intro k hk
  rcases (directory_of_mem_along hd).2 k (htrail k hk) with rfl | hdir
  · exact hnode
  · exact hdir

/-- A name that could once be read is read wherever the directory is reached and has a file of that name. -/
theorem read_of_reached (h : t.read (dir.join ⟨name⟩) = .ok other) (hreached : u.Reached dir)
    (hfile : u.node? (place dir ++ [name]) = some (.file content)) : u.read (dir.join ⟨name⟩) = .ok content := by
  obtain ⟨hps, hfollow, hnode⟩ := at?_eq_some.1 (read_eq_ok.1 h)
  rw [← place_join_name dir hname hslash] at hfile
  rw [read_eq_ok, at?_eq_some]
  refine ⟨hps, follow_of_along (fun k hk hdir => ?_) (by rw [hfile]; rfl) hfollow, hfile⟩
  rcases (mem_trail_join hname hslash).1 (mem_trail_of_mem_along hk) with hk | rfl
  · exact hreached k hk
  · rw [← place_join_name dir hname hslash, hnode] at hdir
    cases hdir

omit hslash in
/-- What an operation makes or removes that is given a name in a directory. -/
theorem aim_of_follow {ps : List String} (hps : pieces p = .ok (ps ++ [name])) (hfollow : t.follow [] ps = .ok l)
    (hdir : t.node? l = some .directory) (hshort : name.utf8ByteSize ≤ maxName) : t.aim p = .ok (.name l name false) :=
  aim_eq_name.2 ⟨ps, [], hps, fun _ h => absurd h List.not_mem_nil, by simp, hname, hshort, hfollow, hdir⟩

/-- A file can be written in a directory that is there, under any name that is not too long and no directory's. -/
theorem exists_write_name (hnul : '\x00' ∉ name.toList) (hshort : name.utf8ByteSize ≤ maxName)
    (hlong : dir.text.utf8ByteSize + name.utf8ByteSize < maxPath) (hthere : t.isDirectory dir = true)
    (hfree : t.node? (place dir ++ [name]) ≠ some .directory) (content : Bytes) :
    ∃ u, t.write (dir.join ⟨name⟩) content = .ok u := by
  obtain ⟨htaken, hfollow, hdir⟩ := at?_eq_some.1 (isDirectory_iff.1 hthere)
  obtain ⟨hdirNul, hempty, -⟩ := pieces_eq_ok_iff.1 htaken
  obtain ⟨ps, -, -, hpieces, hdirPieces⟩ := pieces_join_name hslash hempty
  have hps : t.follow [] ps = .ok (place dir) := by
    rcases hdirPieces with heq | heq
    · rwa [heq] at hfollow
    · rw [heq] at hfollow
      obtain ⟨d, hd, -, -, hplace⟩ := follow_append_piece hfollow
      rw [hd, hplace]
      rfl
  have hjoin : pieces (dir.join ⟨name⟩) = .ok (ps ++ [name]) := by
    have htext := Path.text_join (p := dir) (Path.isAbsolute_of_notMem (p := ⟨name⟩) hslash)
    have hnonempty : name ≠ "" := hname.1
    rw [← hpieces, pieces_eq_ok_iff, htext]
    refine ⟨?_, by simp [hnonempty], ?_⟩
    · split <;> simp [hdirNul, hnul]
    · have hslashSize : "/".utf8ByteSize = 1 := rfl
      rw [String.utf8ByteSize_append, String.utf8ByteSize_append]
      dsimp only
      split
      · rw [String.utf8ByteSize_empty]
        omega
      · omega
  have haim := aim_of_follow hname hjoin hps hdir hshort
  exact ⟨_, write_eq_ok.2 ⟨_, _, haim, hfree, rfl⟩⟩

end Names

/-! ## Writing a file with several names -/

/-- Two locations are names of one file. -/
def Linked (t : FileTree) (l m : Location) : Prop := ∃ group ∈ t.links, l ∈ group ∧ m ∈ group

theorem linked_of_mem_names (h : m ∈ t.names l) (hne : m ≠ l) : t.Linked l m := by
  obtain ⟨group, hgroup, hm, hl⟩ := mem_links_of_mem_names h hne
  exact ⟨group, hgroup, hl, hm⟩

theorem names_congr (h : u.links = t.links) (l : Location) : u.names l = t.names l := by
  rw [names, names, h]

/-- A file that is written has the same content under all its names. -/
theorem node?_write_of_mem_names (hw : t.WellLinked) (h : t.write p content = .ok t') (hl : l ∈ t.names (place p)) :
    t'.node? l = some (.file content) := by
  obtain ⟨hne, -, rfl⟩ := write_eq h
  have hl' : l ≠ [] := by
    rintro rfl
    obtain ⟨group, hgroup, hmem, -⟩ := mem_links_of_mem_names hl (Ne.symm hne)
    obtain ⟨_, hcontent⟩ := hw group hgroup [] hmem
    cases hcontent
  rw [node?_put _ _ _ hl', if_pos hl]

/-- Writing a file changes it under its names, and nothing else. -/
theorem sameBut_names (hw : t.WellLinked) (h : t.write p content = .ok t') :
    SameBut (· ∈ t.names (place p)) t t' := by
  obtain ⟨hne, hnode, rfl⟩ := write_eq h
  -- what has the file's name is the file itself, or a file as well
  have hfile (l : Location) (hl : l ∈ t.names (place p)) : l ≠ [] ∧ t.node? l ≠ some .directory := by
    by_cases heq : l = place p
    · subst heq
      exact ⟨hne, hnode⟩
    · obtain ⟨group, hgroup, hmem, -⟩ := mem_links_of_mem_names hl heq
      obtain ⟨bytes, hbytes⟩ := hw group hgroup l hmem
      rw [hbytes]
      refine ⟨?_, nofun⟩
      rintro rfl
      cases hbytes
  have hput (l : Location) : (t.put (place p) (.file content)).node? l =
      if l ∈ t.names (place p) then some (.file content) else t.node? l := by
    by_cases hl : l = []
    · subst hl
      rw [if_neg fun hmem => (hfile [] hmem).1 rfl]
      rfl
    · exact node?_put _ _ _ hl
  refine ⟨fun l hl => ?_, fun l => ?_, fun l hl => ?_, rfl⟩
  · rw [hput, if_neg hl]
  · rw [hput]
    split
    · next hmem => exact iff_of_false nofun (hfile l hmem).2
    · rfl
  · rw [hput]
    split
    · rfl
    · exact hl

/-- A file is read where an operation finds it that is given its path. -/
theorem read_of_aim {parent : Location} (haim : t.aim p = .ok (.name parent name false))
    (hfile : t.node? (parent ++ [name]) = some (.file content)) : t.read p = .ok content := by
  obtain ⟨front, behind, hps, -, hslash, hname, hlen, hfollow, hdir⟩ := aim_eq_name.1 haim
  -- no slash comes last, so the last piece is the name
  obtain rfl : behind = [] := by simpa using hslash
  have hpieces := pieces_eq hps
  have hfound : t.follow parent [name] = .ok (parent ++ [name]) :=
    follow_cons_eq_ok.2 ⟨hdir, hlen, follow_nil_eq_ok.2 ⟨walk_name hname, by rw [walk_name hname, hfile]; rfl⟩⟩
  rw [read_eq_ok, at?_eq_some, ← hpieces, (aim_name haim).2, follow_append _ hfollow]
  exact ⟨hps, hfound, hfile⟩

/-- What was written is read back. -/
theorem read_of_write (hw : t.WellLinked) (h : t.write p content = .ok t') : t'.read p = .ok content := by
  have hsame := sameBut_names hw h
  have hnode := node?_write h
  obtain ⟨parent, name, haim, -, -⟩ := write_eq_ok.1 h
  rw [(aim_name haim).2] at hnode
  exact read_of_aim (hsame.aim haim) hnode

/-- A file can be read if what lies beside it can. -/
theorem read_of_file_beside {s : String} (hfile : t.node? (place p) = some (.file content)) (hslash : '/' ∉ s.toList)
    (hlen : 2 < s.toList.length) (hbeside : t.read ⟨p.text ++ s⟩ = .ok other) : t.read p = .ok content := by
  obtain ⟨l, hl, -⟩ := locate_of_read hbeside
  obtain ⟨init, last, d, hpieces, hlast, hd, hdir, hmore, hplace, -⟩ := follow_beside hfile hslash hlen hl
  obtain ⟨hps, -, -⟩ := at?_eq_some.1 (read_eq_ok.1 hbeside)
  have htext : p.text ≠ "" := by
    intro hempty
    obtain rfl : p = ⟨""⟩ := Path.eq_of_text hempty
    rw [show place ⟨""⟩ = [] from rfl] at hfile
    cases hfile
  -- the name of the file is shorter than the one beside it
  obtain ⟨-, hlong, -⟩ := follow_cons_eq_ok.1 hmore
  have hshort : last.utf8ByteSize ≤ maxName := by
    rw [String.utf8ByteSize_append] at hlong
    omega
  have hfound : t.follow d [last] = .ok (place p) :=
    follow_cons_eq_ok.2 ⟨hdir, hshort, follow_nil_eq_ok.2 ⟨by rw [walk_name hlast, hplace],
      by rw [walk_name hlast, ← hplace, hfile]; rfl⟩⟩
  rw [read_eq_ok, at?_eq_some, hpieces, follow_append _ hd]
  exact ⟨hpieces ▸ pieces_of_longer hps rfl htext, hfound, hfile⟩

/-- A file that is read after directories were made was there before, if what lies beside it could be read. -/
theorem read_of_beside {s : String} (h : Grows t u) (hslash : '/' ∉ s.toList) (hlen : 2 < s.toList.length)
    (hbeside : t.read ⟨p.text ++ s⟩ = .ok other) (hread : u.read p = .ok content) : t.read p = .ok content :=
  read_of_file_beside (h.file_iff.1 (node?_of_read hread)) hslash hlen hbeside

/-- Beside a file, what one spelling of its path finds is found by every other one that is not too long for it. -/
theorem read_beside_of_same {s : String} (hplace : place p = place q) (hfile : t.isFile p = true)
    (hslash : '/' ∉ s.toList) (hlen : 2 < s.toList.length) (hnul : '\x00' ∉ s.toList)
    (hshort : (p.text ++ s).utf8ByteSize ≤ maxPath) (h : t.read ⟨q.text ++ s⟩ = .ok other) :
    t.read ⟨p.text ++ s⟩ = .ok other := by
  obtain ⟨content, hread⟩ := read_of_isFile hfile
  obtain ⟨-, hfollow, hnode⟩ := at?_eq_some.1 (read_eq_ok.1 hread)
  -- both spellings lead to one directory
  obtain ⟨init, last, hpieces, hmore⟩ := p.pieces_append
  rw [hpieces] at hfollow
  obtain ⟨dir, hdir, hdirectory, -, hlast⟩ := follow_append_piece hfollow
  have hname : IsName last := isName_of_file hdir hdirectory (hlast ▸ hnode)
  obtain ⟨l, hl, hother⟩ := locate_of_read h
  obtain ⟨-, last', dir', -, -, -, -, hbeside, hplace', rfl⟩ := follow_beside (hplace ▸ hnode) hslash hlen hl
  rw [walk_name hname, hplace, hplace'] at hlast
  obtain ⟨rfl, hsame⟩ := List.append_inj' hlast rfl
  obtain rfl : last' = last := List.singleton_inj.1 hsame
  have hfound : t.follow [] (Path.pieces ⟨p.text ++ s⟩) = .ok (dir' ++ [last' ++ s]) := by
    rw [hmore s hslash, follow_append _ hdir, hbeside]
  have htaken : pieces ⟨p.text ++ s⟩ = .ok (Path.pieces ⟨p.text ++ s⟩) := by
    have hempty : p.text ++ s ≠ "" := fun heq => by
      have hlength := congrArg (fun s : String => s.toList.length) heq
      simp only [String.toList_append, List.length_append] at hlength
      have hnone : "".toList.length = 0 := rfl
      omega
    have hnul' : '\x00' ∉ (p.text ++ s).toList := by
      rw [String.toList_append, List.mem_append, not_or]
      exact ⟨nul_notMem_of_read hread, hnul⟩
    exact pieces_eq_ok_iff.2 ⟨hnul', hempty, hshort⟩
  rw [read_eq_ok, at?, locate, htaken]
  dsimp only
  rw [hfound]
  exact hother

end Bundler.FileTree
