import Bundler.FileTree
import Bundler.Proofs.Path
/-!
# Where paths lead

There are no symbolic links, so the text of a path alone tells where it leads, if it leads anywhere:
to its `place`. Reading looks there (`node?_of_read`), and the operations that make something make it
there (`write_eq`, `makeDirectory_eq`). When a path can be followed, and what an operation makes of it, is said step by
step (`follow_cons_eq_ok`, `aim_eq_name`, `write_eq_ok`).
-/

namespace Bundler.FileTree

variable {t t' : FileTree} {p : Path} {here l : Location} {content : Bytes}

/-- One step along a path, as if every name were there. -/
def walk (here : Location) (piece : String) : Location :=
  if piece = "" ∨ piece = "." then here
  else if piece = ".." then here.dropLast
  else here ++ [piece]

/-- Where a path leads, if it leads anywhere. -/
def place (p : Path) : Location := p.pieces.foldl walk []

/-- Whether a piece of a path is the name of an entry. -/
def IsName (piece : String) : Prop := piece ≠ "" ∧ piece ≠ "." ∧ piece ≠ ".."

theorem walk_name {name : String} (h : IsName name) : walk here name = here ++ [name] := by
  rw [walk, if_neg (not_or.2 ⟨h.1, h.2.1⟩), if_neg h.2.2]

theorem foldl_walk_empty {ps : List String} (h : ∀ piece ∈ ps, piece = "") : ps.foldl walk here = here := by
  induction ps with
  | nil => rfl
  | cons piece ps ih =>
    have hw : walk here piece = here := if_pos (.inl (h piece List.mem_cons_self))
    rw [List.foldl_cons, hw, ih fun x hx => h x (List.mem_cons_of_mem _ hx)]

theorem isName_of_length {piece : String} (h : 2 < piece.toList.length) : IsName piece := by
  refine ⟨?_, ?_, ?_⟩ <;> rintro rfl <;> revert h <;> decide

/-- With more behind its last piece, a path leads elsewhere. -/
theorem place_append_ne (p : Path) {s : String} (hslash : '/' ∉ s.toList) (hlen : 2 < s.toList.length) :
    place ⟨p.text ++ s⟩ ≠ place p := by
  obtain ⟨init, last, hpieces, hmore⟩ := p.pieces_append
  have hname : IsName (last ++ s) := isName_of_length (by rw [String.toList_append, List.length_append]; omega)
  rw [place, place, hmore s hslash, hpieces, List.foldl_append, List.foldl_append, List.foldl_cons, List.foldl_cons,
    List.foldl_nil, List.foldl_nil, walk_name hname, walk]
  intro heq
  split at heq
  · have := congrArg List.length heq
    simp at this
  · split at heq
    · have := congrArg List.length heq
      simp only [List.length_append, List.length_singleton, List.length_dropLast] at this
      omega
    · have hlast := (List.append_inj' heq rfl).2
      simp only [List.cons.injEq, and_true] at hlast
      have := congrArg (fun s : String => s.toList.length) hlast
      simp only [String.toList_append, List.length_append] at this
      omega

/-! ## Looking -/

/-- Where a path ends, there must be something. -/
theorem follow_nil_eq_ok : t.follow here [] = .ok l ↔ here = l ∧ (t.node? here).isSome := by
  rw [follow]
  split
  · next hthere => simp [hthere]
  · next hnone => simp [hnone]

/-- One step of following: it is taken in a directory, and a name must not be too long. -/
theorem follow_cons (t : FileTree) (here : Location) (piece : String) (rest : List String) :
    t.follow here (piece :: rest) = match t.node? here with
      | none => .error .notFound
      | some (.file _) => .error .notADirectory
      | some .directory =>
        if maxName < piece.utf8ByteSize then .error .nameTooLong else t.follow (walk here piece) rest := by
  have short {s : String} (h : s = "" ∨ s = "." ∨ s = "..") : ¬ maxName < s.utf8ByteSize := by
    rcases h with rfl | rfl | rfl <;> decide
  unfold walk
  rw [follow]
  rcases t.node? here with _ | _ | content
  · rfl
  · dsimp only
    by_cases hstay : piece = "" ∨ piece = "."
    · rw [if_pos hstay, if_pos hstay, if_neg (short (hstay.imp id .inl))]
    by_cases hup : piece = ".."
    · rw [if_neg hstay, if_neg hstay, if_pos hup, if_pos hup, if_neg (short (.inr (.inr hup)))]
    · rw [if_neg hstay, if_neg hstay, if_neg hup, if_neg hup]
  · rfl

theorem follow_cons_eq_ok {piece : String} {rest : List String} :
    t.follow here (piece :: rest) = .ok l ↔
      t.node? here = some .directory ∧ piece.utf8ByteSize ≤ maxName ∧ t.follow (walk here piece) rest = .ok l := by
  rw [follow_cons]
  rcases t.node? here with _ | _ | content
  · simp
  · dsimp only
    by_cases hlen : maxName < piece.utf8ByteSize
    · simp [hlen, Nat.not_le.2 hlen]
    · simp [hlen, Nat.not_lt.1 hlen]
  · simp

theorem follow_eq {ps : List String} (h : t.follow here ps = .ok l) : l = ps.foldl walk here := by
  induction ps generalizing here with
  | nil => exact (follow_nil_eq_ok.1 h).1.symm
  | cons piece rest ih =>
    obtain ⟨-, -, hrest⟩ := follow_cons_eq_ok.1 h
    exact ih hrest

/-- Slashes stay where they are. -/
theorem follow_of_empty {ps : List String} (hps : ∀ piece ∈ ps, piece = "") (hdir : t.node? here = some .directory) :
    t.follow here ps = .ok here := by
  induction ps with
  | nil => exact follow_nil_eq_ok.2 ⟨rfl, by rw [hdir]; rfl⟩
  | cons piece rest ih =>
    rw [List.forall_mem_cons] at hps
    obtain ⟨rfl, hrest⟩ := hps
    exact follow_cons_eq_ok.2 ⟨hdir, by decide, ih hrest⟩

theorem pieces_eq {ps : List String} (h : pieces p = .ok ps) : ps = p.pieces := by
  unfold pieces at h
  split at h
  · cases h
  · split at h
    · cases h
    · split at h
      · cases h
      · cases h; rfl

/-- The system takes a path that has no NUL, is not empty and not too long. -/
theorem pieces_eq_ok_iff :
    pieces p = .ok p.pieces ↔ '\x00' ∉ p.text.toList ∧ p.text ≠ "" ∧ p.text.utf8ByteSize ≤ maxPath := by
  constructor
  · intro h
    unfold pieces at h
    split at h
    · cases h
    next hnul =>
    split at h
    · cases h
    next hempty =>
    split at h
    · cases h
    next hlong => exact ⟨mt List.contains_iff_mem.2 hnul, hempty, Nat.not_lt.1 hlong⟩
  · rintro ⟨hnul, hempty, hlong⟩
    rw [pieces, if_neg (mt List.contains_iff_mem.1 hnul), if_neg hempty, if_neg (Nat.not_lt.2 hlong)]

theorem locate_eq_ok : t.locate p = .ok l ↔ pieces p = .ok p.pieces ∧ t.follow [] p.pieces = .ok l := by
  constructor
  · intro h
    unfold locate at h
    split at h
    · cases h
    next ps hps =>
    rw [← pieces_eq hps]
    exact ⟨hps, h⟩
  · rintro ⟨hps, hfollow⟩
    rw [locate, hps]
    exact hfollow

theorem locate_eq (h : t.locate p = .ok l) : l = place p := follow_eq (locate_eq_ok.1 h).2

/-- A path with a NUL denotes nothing. -/
theorem nul_notMem_of_locate (h : t.locate p = .ok l) : '\x00' ∉ p.text.toList :=
  (pieces_eq_ok_iff.1 (locate_eq_ok.1 h).1).1

theorem at?_eq_some {n : Node} :
    t.at? p = some n ↔ pieces p = .ok p.pieces ∧ t.follow [] p.pieces = .ok (place p) ∧ t.node? (place p) = some n := by
  constructor
  · intro h
    unfold at? at h
    split at h
    · cases h
    next l hl =>
    obtain ⟨hps, hfollow⟩ := locate_eq_ok.1 hl
    rw [← locate_eq hl]
    exact ⟨hps, hfollow, h⟩
  · rintro ⟨hps, hfollow, hn⟩
    rw [at?, locate_eq_ok.2 ⟨hps, hfollow⟩]
    exact hn

theorem read_eq_ok : t.read p = .ok content ↔ t.at? p = some (.file content) := by
  unfold read at?
  split
  · simp
  · split <;> simp_all

theorem isDirectory_iff : t.isDirectory p = true ↔ t.at? p = some .directory := decide_eq_true_iff

theorem locate_of_read (h : t.read p = .ok content) : ∃ l, t.locate p = .ok l ∧ t.node? l = some (.file content) := by
  obtain ⟨hps, hfollow, hnode⟩ := at?_eq_some.1 (read_eq_ok.1 h)
  exact ⟨_, locate_eq_ok.2 ⟨hps, hfollow⟩, hnode⟩

/-- What is read is the file at the place of the path. -/
theorem node?_of_read (h : t.read p = .ok content) : t.node? (place p) = some (.file content) :=
  (at?_eq_some.1 (read_eq_ok.1 h)).2.2

theorem nul_notMem_of_read (h : t.read p = .ok content) : '\x00' ∉ p.text.toList := by
  obtain ⟨l, hl, -⟩ := locate_of_read h
  exact nul_notMem_of_locate hl

/-! ## Changing -/

/-- A slash comes last where something is behind the last name. -/
theorem getLast?_eq_empty_iff {name : String} {front behind : List String} (hname : name ≠ "")
    (hbehind : ∀ piece ∈ behind, piece = "") : (front ++ name :: behind).getLast? = some "" ↔ behind ≠ [] := by
  rcases List.eq_nil_or_concat behind with rfl | ⟨init, last, rfl⟩
  · simpa using hname
  · obtain rfl : last = "" := hbehind last (by simp)
    have hsplit : front ++ name :: init.concat "" = front ++ name :: init ++ [""] := by simp
    rw [hsplit, List.getLast?_concat]
    simp

/-- The last name among the pieces of a path, and what comes before it, the nearest first: only slashes are behind. -/
theorem dropWhile_reverse_eq_cons {name : String} {ps before : List String} :
    ps.reverse.dropWhile (· = "") = name :: before ↔
      name ≠ "" ∧ ∃ behind, ps = before.reverse ++ name :: behind ∧ ∀ piece ∈ behind, piece = "" := by
  constructor
  · intro h
    have hname := List.head?_dropWhile_not (fun piece : String => decide (piece = "")) ps.reverse
    have hwhole := List.takeWhile_append_dropWhile (p := fun piece : String => decide (piece = "")) (l := ps.reverse)
    rw [h] at hname hwhole
    refine ⟨by simpa using hname, (ps.reverse.takeWhile (· = "")).reverse, ?_, fun piece hpiece => ?_⟩
    · simpa using (congrArg List.reverse hwhole).symm
    · simpa using List.all_eq_true.1 List.all_takeWhile piece (List.mem_reverse.1 hpiece)
  · rintro ⟨hname, behind, rfl, hbehind⟩
    rw [List.reverse_append, List.reverse_cons, List.append_assoc, List.dropWhile_append_of_pos, List.singleton_append,
      List.dropWhile_cons_of_neg, List.reverse_reverse]
    · simpa using hname
    · intro piece hpiece
      simpa using hbehind piece (List.mem_reverse.1 hpiece)

/-- An operation is given a name in a directory: what comes before the name leads to the directory, and behind it there
are only slashes. -/
theorem aim_eq_name {parent : Location} {name : String} {slash : Bool} : t.aim p = .ok (.name parent name slash) ↔
    ∃ front behind, pieces p = .ok (front ++ name :: behind) ∧ (∀ piece ∈ behind, piece = "") ∧
      (slash = true ↔ behind ≠ []) ∧ IsName name ∧ name.utf8ByteSize ≤ maxName ∧ t.follow [] front = .ok parent ∧
      t.node? parent = some .directory := by
  constructor
  · intro h
    unfold aim at h
    split at h
    · cases h
    next ps hps =>
    split at h
    · cases h
    next last front hrev =>
    split at h
    · cases hfollow : t.follow [] ps <;> simp [hfollow, Except.map] at h
    next hdots =>
    split at h
    · cases h
    next here hhere =>
    split at h
    · cases h
    · cases h
    next hdir =>
    split at h
    · cases h
    next hlen =>
    cases h
    obtain ⟨hlast, behind, rfl, hbehind⟩ := dropWhile_reverse_eq_cons.1 hrev
    refine ⟨_, behind, hps, hbehind, ?_, ⟨hlast, not_or.1 hdots⟩, Nat.not_lt.1 hlen, hhere, hdir⟩
    rw [decide_eq_true_eq, getLast?_eq_empty_iff hlast hbehind]
  · rintro ⟨front, behind, hps, hbehind, hslash, hname, hlen, hfollow, hdir⟩
    have hrev : (front ++ name :: behind).reverse.dropWhile (· = "") = name :: front.reverse :=
      dropWhile_reverse_eq_cons.2 ⟨hname.1, behind, by rw [List.reverse_reverse], hbehind⟩
    unfold aim
    rw [hps]
    dsimp only
    rw [hrev]
    dsimp only
    rw [if_neg (not_or.2 hname.2), List.reverse_reverse, hfollow]
    dsimp only
    rw [hdir]
    dsimp only
    have hend : decide ((front ++ name :: behind).getLast? = some "") = slash := by
      rw [Bool.eq_iff_iff, decide_eq_true_eq]
      exact (getLast?_eq_empty_iff hname.1 hbehind).trans hslash.symm
    rw [if_neg (Nat.not_lt.2 hlen), hend]

/-- The name that an operation makes is the last one of the path. -/
theorem aim_name {parent : Location} {name : String} {slash : Bool} (h : t.aim p = .ok (.name parent name slash)) :
    IsName name ∧ place p = parent ++ [name] := by
  obtain ⟨front, behind, hps, hbehind, -, hname, -, hfollow, -⟩ := aim_eq_name.1 h
  refine ⟨hname, ?_⟩
  rw [place, ← pieces_eq hps, List.foldl_append, ← follow_eq hfollow, List.foldl_cons, walk_name hname]
  exact foldl_walk_empty hbehind

/-- A file is written under a name in a directory that is no directory's. -/
theorem write_eq_ok : t.write p content = .ok t' ↔ ∃ parent name, t.aim p = .ok (.name parent name false) ∧
    t.node? (parent ++ [name]) ≠ some .directory ∧ t' = t.put (parent ++ [name]) (.file content) := by
  constructor
  · intro h
    unfold write at h
    split at h
    · cases h
    · cases h
    next parent name slash haim =>
    split at h
    · cases h
    next hslash =>
    split at h
    · cases h
    next hnode =>
    cases h
    rw [Bool.not_eq_true] at hslash
    exact ⟨parent, name, hslash ▸ haim, hnode, rfl⟩
  · rintro ⟨parent, name, haim, hnode, rfl⟩
    rw [write, haim]
    dsimp only
    rw [if_neg Bool.false_ne_true]
    split
    · next hdir => exact absurd hdir hnode
    · rfl

theorem write_eq (h : t.write p content = .ok t') :
    place p ≠ [] ∧ t.node? (place p) ≠ some .directory ∧ t' = t.put (place p) (.file content) := by
  obtain ⟨parent, name, haim, hnode, rfl⟩ := write_eq_ok.1 h
  rw [(aim_name haim).2]
  exact ⟨by simp, hnode, rfl⟩

/-- Whether a file can be written does not depend on its content. -/
theorem write_of_write (h : t.write p content = .ok t') (other : Bytes) :
    t.write p other = .ok (t.put (place p) (.file other)) := by
  obtain ⟨parent, name, haim, hnode, -⟩ := write_eq_ok.1 h
  rw [(aim_name haim).2]
  exact write_eq_ok.2 ⟨parent, name, haim, hnode, rfl⟩

/-- A directory is made under a name that nothing has. -/
theorem makeDirectory_eq_ok :
    t.makeDirectory p = .ok t' ↔ ∃ parent name slash, t.aim p = .ok (.name parent name slash) ∧
    t.node? (parent ++ [name]) = none ∧ t' = t.put (parent ++ [name]) .directory := by
  constructor
  · intro h
    unfold makeDirectory at h
    split at h
    · cases h
    · cases h
    next parent name slash haim =>
    split at h
    · cases h
    next hnode =>
    cases h
    exact ⟨parent, name, slash, haim, hnode, rfl⟩
  · rintro ⟨parent, name, slash, haim, hnode, rfl⟩
    rw [makeDirectory, haim]
    dsimp only
    rw [hnode]

theorem makeDirectory_eq (h : t.makeDirectory p = .ok t') :
    place p ≠ [] ∧ t.node? (place p) = none ∧ t' = t.put (place p) .directory := by
  obtain ⟨parent, name, slash, haim, hnode, rfl⟩ := makeDirectory_eq_ok.1 h
  rw [(aim_name haim).2]
  exact ⟨by simp, hnode, rfl⟩

/-- A directory that there must be was made, or it was there. -/
theorem ensureDirectory_cases (h : t.ensureDirectory p = .ok t') :
    t.makeDirectory p = .ok t' ∨ t' = t ∧ t.isDirectory p = true := by
  unfold ensureDirectory at h
  split at h
  · next hmake =>
    cases h
    exact .inl hmake
  · split at h
    · next hthere =>
      cases h
      exact .inr ⟨rfl, hthere⟩
    · cases h

/-! ## Evaluated results

Errors are not compared, so a result is known from what it is without its error. -/

variable {ε α : Type} {a : α}

theorem eq_of_toOption {x : Except ε α} (h : x.toOption = some a) : x = .ok a := by
  cases x with
  | error e => cases h
  | ok b => cases h; rfl

theorem pair_of_toOption {x : FileTree × Except ε α} (h : (x.1, x.2.toOption) = (t, some a)) : x = (t, .ok a) :=
  Prod.ext (Prod.mk.inj h).1 (eq_of_toOption (Prod.mk.inj h).2)

theorem write_of_isSome (h : (t.write p []).toOption.isSome) (content : Bytes) :
    t.write p content = .ok (t.put (place p) (.file content)) := by
  obtain ⟨u, hu⟩ := Option.isSome_iff_exists.1 h
  exact write_of_write (eq_of_toOption hu) content

theorem exists_of_isSome {x : FileTree × Except ε α} (h : x.2.toOption.isSome) : ∃ a, x = (x.1, .ok a) := by
  rcases x with ⟨t, e | a⟩
  · cases h
  · exact ⟨a, rfl⟩

theorem exists_of_toOption {x : FileTree × Except ε α} (h : x.2.toOption = none) : ∃ e, x = (x.1, .error e) := by
  obtain ⟨t, e | b⟩ := x
  · exact ⟨e, rfl⟩
  · cases h

end Bundler.FileTree
