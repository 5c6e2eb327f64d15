import Bundler.Proofs.FileTree.Place
import Bundler.Proofs.Path.Normal
/-!
# Spellings of one place

Spellings of one path lead to one place, from wherever they are seen (`place_join_of_same`). A name that
is added behind the path of a file leads beside this file, however the path is spelled
(`locate_beside`), so two spellings find the same content there (`read_beside_congr`).
-/

namespace Bundler.FileTree

open Bundler.Path (Component)

variable {t : FileTree} {p q : Path} {here l : Location} {content : Bytes}

/-- One component of a path, as if every name were there. -/
def enter (here : Location) : Component → Location
  | .up => here.dropLast
  | .name s => here ++ [s]
  | _ => here

theorem walk_ofPiece (here : Location) (piece : String) :
    walk here piece = (Component.ofPiece piece).elim here (enter here) := by
  unfold walk Component.ofPiece
  split
  · rfl
  · split <;> rfl

theorem foldl_walk_filterMap (here : Location) (ps : List String) :
    ps.foldl walk here = (ps.filterMap Component.ofPiece).foldl enter here := by
  induction ps generalizing here with
  | nil => rfl
  | cons piece ps ih =>
    rw [List.foldl_cons, ih, walk_ofPiece, List.filterMap_cons]
    cases Component.ofPiece piece <;> rfl

/-- Where a path leads depends on its components alone. -/
theorem foldl_walk_components (here : Location) (p : Path) :
    p.pieces.foldl walk here = p.components.foldl enter here := by
  unfold Path.components
  cases hpieces : p.pieces with
  | nil => rfl
  | cons first rest =>
    dsimp only
    rw [List.foldl_cons, foldl_walk_filterMap]
    split
    · next habs =>
      obtain ⟨others, hothers⟩ := Path.pieces_of_isAbsolute habs
      rw [hpieces, List.cons.injEq] at hothers
      rw [hothers.1]
      rfl
    · split
      · next hhere =>
        rw [hhere]
        rfl
      · rw [List.foldl_append, walk_ofPiece]
        cases Component.ofPiece first <;> rfl

/-- A path that is joined is followed from where the first one leads, unless it is absolute. -/
theorem place_join (p q : Path) :
    place (p.join q) = if q.isAbsolute then place q else q.pieces.foldl walk (place p) := by
  unfold Path.join
  split
  · rfl
  · split
    · next hend =>
      rcases hend with hempty | hslash
      · have htext : p.text = "" := String.toList_inj.1 hempty
        have hp : place p = [] := by rw [place, Path.pieces, htext]; rfl
        rw [hp, htext, String.empty_append]
        rfl
      · obtain ⟨front, hfront⟩ := List.getLast?_eq_some_iff.1 hslash
        rw [place, place, Path.pieces, Path.pieces, Path.pieces, String.toList_append, hfront, List.append_assoc,
          List.singleton_append, Path.splitSlash_append_slash, Path.splitSlash_append_slash, List.map_append,
          List.map_append, List.foldl_append, List.foldl_append]
        rfl
    · rw [place, place, Path.pieces, Path.pieces, Path.pieces, String.toList_append, String.toList_append,
        List.append_assoc]
      show ((Path.splitSlash (p.text.toList ++ '/' :: q.text.toList)).map String.ofList).foldl walk [] = _
      rw [Path.splitSlash_append_slash, List.map_append, List.foldl_append]

/-- Spellings of one path lead to one place. -/
theorem place_join_of_same (root : Path) (h : p.Same q) : place (root.join p) = place (root.join q) := by
  have hwalk (here : Location) : p.pieces.foldl walk here = q.pieces.foldl walk here := by
    rw [foldl_walk_components, foldl_walk_components, h]
  rw [place_join, place_join, Path.isAbsolute_of_same h, hwalk]
  unfold place
  rw [hwalk]

/-! ## Beside a file -/

/-- On the way to what is followed there are directories only. -/
theorem directory_of_follow {ps : List String} (h : t.follow here ps = .ok l)
    (hhere : ∀ k, k <+: here → k ≠ here → t.node? k = some .directory) :
    ∀ k, k <+: l → k ≠ l → t.node? k = some .directory := by
  induction ps generalizing here with
  | nil =>
    obtain ⟨rfl, -⟩ := follow_nil_eq_ok.1 h
    exact hhere
  | cons piece rest ih =>
    obtain ⟨hdir, -, hrest⟩ := follow_cons_eq_ok.1 h
    refine ih hrest ?_
    unfold walk
    split
    · exact hhere
    split
    · refine fun k hk hne => hhere k (hk.trans (List.dropLast_prefix here)) fun heq => hne ?_
      -- what is all of `here` and begins what is above it is the top
      subst heq
      have hlen := hk.length_le
      rw [List.length_dropLast] at hlen
      have hnil : k = [] := List.length_eq_zero_iff.1 (by omega)
      rw [hnil, List.dropLast_nil]
    · intro k hk hne
      have hk := (List.prefix_concat_iff.1 hk).resolve_left hne
      by_cases heq : k = here
      · rw [heq, hdir]
      · exact hhere k hk heq

theorem follow_append {ps : List String} (qs : List String) (h : t.follow here ps = .ok l) :
    t.follow here (ps ++ qs) = t.follow l qs := by
  induction ps generalizing here with
  | nil =>
    obtain ⟨rfl, -⟩ := follow_nil_eq_ok.1 h
    rfl
  | cons piece rest ih =>
    obtain ⟨hdir, hlen, hrest⟩ := follow_cons_eq_ok.1 h
    rw [List.cons_append, follow_cons, hdir]
    dsimp only
    rw [if_neg (Nat.not_lt.2 hlen), ih hrest]

/-- The last piece of a path is looked up in a directory. -/
theorem follow_append_piece {ps : List String} {piece : String} (h : t.follow here (ps ++ [piece]) = .ok l) :
    ∃ dir, t.follow here ps = .ok dir ∧ t.node? dir = some .directory ∧ piece.utf8ByteSize ≤ maxName ∧
      l = walk dir piece := by
  induction ps generalizing here with
  | nil =>
    obtain ⟨hdir, hlen, hrest⟩ := follow_cons_eq_ok.1 h
    exact ⟨here, follow_nil_eq_ok.2 ⟨rfl, by rw [hdir]; rfl⟩, hdir, hlen, (follow_nil_eq_ok.1 hrest).1.symm⟩
  | cons first rest ih =>
    obtain ⟨hdir, hlen, hrest⟩ := follow_cons_eq_ok.1 h
    obtain ⟨dir, hfollow, hlast⟩ := ih hrest
    exact ⟨dir, follow_cons_eq_ok.2 ⟨hdir, hlen, hfollow⟩, hlast⟩

theorem follow_append_name {ps : List String} {name : String} (hname : IsName name)
    (h : t.follow here (ps ++ [name]) = .ok l) :
    ∃ dir, t.follow here ps = .ok dir ∧ t.node? dir = some .directory ∧ l = dir ++ [name] := by
  obtain ⟨dir, hdir, hnode, -, rfl⟩ := follow_append_piece h
  exact ⟨dir, hdir, hnode, walk_name hname⟩

/-- A path that ends in no name leads to a directory. -/
theorem isName_of_file {ps : List String} {piece : String} {dir : Location} (hdir : t.follow [] ps = .ok dir)
    (hnode : t.node? dir = some .directory) (hfile : t.node? (walk dir piece) = some (.file content)) :
    IsName piece := by
  rw [walk] at hfile
  split at hfile
  · rw [hnode] at hfile
    cases hfile
  next hstay =>
  split at hfile
  · have habove : t.node? dir.dropLast = some .directory := by
      rcases List.eq_nil_or_concat dir with rfl | ⟨front, x, rfl⟩
      · exact hnode
      · rw [List.concat_eq_append] at hdir ⊢
        rw [List.dropLast_concat]
        exact directory_of_follow hdir (fun k hk hne => absurd (List.prefix_nil.1 hk) hne) front
          (List.prefix_append _ _) (by simp)
    rw [habove] at hfile
    cases hfile
  next hup => exact ⟨(not_or.1 hstay).1, (not_or.1 hstay).2, hup⟩

/-- Where a text is added behind the path of a file, the path leads to the directory of the file. -/
theorem follow_beside {s : String} (hfile : t.node? (place p) = some (.file content)) (hslash : '/' ∉ s.toList)
    (hlen : 2 < s.toList.length) (h : t.locate ⟨p.text ++ s⟩ = .ok l) :
    ∃ init last dir, p.pieces = init ++ [last] ∧ IsName last ∧ t.follow [] init = .ok dir ∧
      t.node? dir = some .directory ∧ t.follow dir [last ++ s] = .ok l ∧ place p = dir ++ [last] ∧
      l = dir ++ [last ++ s] := by
  obtain ⟨init, last, hpieces, hmore⟩ := p.pieces_append
  have hname : IsName (last ++ s) := isName_of_length (by rw [String.toList_append, List.length_append]; omega)
  obtain ⟨-, hfollow⟩ := locate_eq_ok.1 h
  rw [hmore s hslash] at hfollow
  obtain ⟨dir, hdir, hnode, rfl⟩ := follow_append_name hname hfollow
  have hplace : place p = walk dir last := by
    rw [place, hpieces, List.foldl_append, ← follow_eq hdir, List.foldl_cons, List.foldl_nil]
  rw [follow_append _ hdir] at hfollow
  have hlast : IsName last := isName_of_file hdir hnode (hplace ▸ hfile)
  exact ⟨init, last, dir, hpieces, hlast, hdir, hnode, hfollow, hplace.trans (walk_name hlast), rfl⟩

/-- What has a text added behind the path of a file lies beside the file. -/
theorem locate_beside {s : String} (hfile : t.node? (place p) = some (.file content)) (hslash : '/' ∉ s.toList)
    (hlen : 2 < s.toList.length) (h : t.locate ⟨p.text ++ s⟩ = .ok l) :
    ∃ dir name, place p = dir ++ [name] ∧ l = dir ++ [name ++ s] := by
  obtain ⟨-, last, dir, -, -, -, -, -, hplace, rfl⟩ := follow_beside hfile hslash hlen h
  exact ⟨dir, last, hplace, rfl⟩

/-- Beside a file, every spelling of its path finds the same content. -/
theorem read_beside_congr {s : String} {x y : Bytes} (hplace : place p = place q)
    (hfile : t.node? (place p) = some (.file content)) (hslash : '/' ∉ s.toList) (hlen : 2 < s.toList.length)
    (hx : t.read ⟨p.text ++ s⟩ = .ok x) (hy : t.read ⟨q.text ++ s⟩ = .ok y) : x = y := by
  obtain ⟨l, hl, hnode⟩ := locate_of_read hx
  obtain ⟨l', hl', hnode'⟩ := locate_of_read hy
  obtain ⟨dir, name, hp, rfl⟩ := locate_beside hfile hslash hlen hl
  obtain ⟨dir', name', hq, rfl⟩ := locate_beside (hplace ▸ hfile) hslash hlen hl'
  obtain ⟨rfl, hnames⟩ := List.append_inj' (hp.symm.trans (hplace.trans hq)) rfl
  cases hnames
  rw [hnode] at hnode'
  cases hnode'
  rfl

theorem read_of_isFile (h : t.isFile p = true) : ∃ content, t.read p = .ok content := by
  unfold isFile at? at h
  split at h
  · next content hat =>
    split at hat
    · cases hat
    · next l hl => exact ⟨content, by simp [read, hl, hat]⟩
  · cases h

/-- A path that denotes a file leads to it. -/
theorem node?_of_isFile (h : t.isFile p = true) : ∃ content, t.node? (place p) = some (.file content) := by
  obtain ⟨content, hread⟩ := read_of_isFile h
  exact ⟨content, node?_of_read hread⟩

end Bundler.FileTree
