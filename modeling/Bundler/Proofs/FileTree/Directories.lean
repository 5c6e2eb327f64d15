import Bundler.Proofs.FileTree.Trail
import Mathlib.Data.List.Induction
/-!
# Making the directory of a file

Whether the directory that a path lies in can be made is decided by the text of the path and by the files on
its trail, whatever directories are there already (`makeParent_congr`). When it was made the trail consists of
directories (`directory_of_makeParent`), and nothing else than directories on the trail was made
(`touched_makeParent`).
-/

namespace Bundler

namespace Path

theorem components_here_steps {steps : List Component} (h : ∀ c ∈ steps, c.IsStep) :
    (ofComponents (.here :: steps)).components = .here :: steps := by
  have hpieces : pieces ⟨"/".intercalate ((Component.here :: steps).map Component.text)⟩ =
      "." :: steps.map Component.text := by
    apply pieces_intercalate (by simp)
    intro piece hpiece
    obtain ⟨c, hc, rfl⟩ := List.mem_map.1 hpiece
    rcases List.mem_cons.1 hc with rfl | hc
    · decide
    · exact slash_notMem_text (h c hc)
  have habs : isAbsolute ⟨"/".intercalate ((Component.here :: steps).map Component.text)⟩ = false := by
    rw [← Bool.not_eq_true]
    intro habs
    obtain ⟨others, hothers⟩ := pieces_of_isAbsolute habs
    rw [hpieces, List.cons.injEq] at hothers
    revert hothers
    simp
  show components ⟨"/".intercalate ((Component.here :: steps).map Component.text)⟩ = _
  rw [components, hpieces]
  dsimp only
  rw [habs, if_neg Bool.false_ne_true, if_pos rfl, filterMap_ofPiece_text h]

/-- The beginning of what a path denotes, spelled out, denotes that. -/
theorem components_of_prefix {p : Path} {cs : List Component} (h : cs <+: p.components) :
    (ofComponents cs).components = cs := by
  have inner {steps part : List Component} (hsteps : ∀ c ∈ steps, c.IsStep) (hpart : part <+: steps) :
      ∀ c ∈ part, c.IsStep := fun c hc => hsteps c (hpart.subset hc)
  obtain ⟨steps, hsteps, heq | heq | heq⟩ := p.exists_steps <;> rw [heq] at h
  · exact components_steps (inner hsteps h)
  · rcases List.prefix_cons_iff.1 h with rfl | ⟨part, rfl, hpart⟩
    · exact components_steps (by simp)
    · exact components_root_steps (inner hsteps hpart)
  · rcases List.prefix_cons_iff.1 h with rfl | ⟨part, rfl, hpart⟩
    · exact components_steps (by simp)
    · exact components_here_steps (inner hsteps hpart)

theorem parent?_eq {p : Path} {cs : List Component} {name : String} (h : p.components = cs ++ [.name name]) :
    p.parent? = some (ofComponents cs) := by
  simp [parent?, h]

theorem exists_more (ps : List String) (piece : String) :
    ∃ more, "/".intercalate (ps ++ [piece]) = "/".intercalate ps ++ more := by
  induction ps with
  | nil => exact ⟨piece, by simp⟩
  | cons first rest ih =>
    obtain ⟨more, hmore⟩ := ih
    cases rest with
    | nil => exact ⟨"/" ++ piece, by simp [String.append_assoc]⟩
    | cons second rest =>
      refine ⟨more, ?_⟩
      rw [List.cons_append, List.cons_append, String.intercalate_cons_cons, ← List.cons_append, hmore,
        String.intercalate_cons_cons]
      simp [String.append_assoc]

/-- A path goes on with the text of what it begins with. -/
theorem text_concat (cs : List Component) (c : Component) :
    ∃ more, (ofComponents (cs ++ [c])).text = (ofComponents cs).text ++ more := by
  have plain (cs : List Component) :
      ∃ more, "/".intercalate ((cs ++ [c]).map Component.text) = "/".intercalate (cs.map Component.text) ++ more := by
    rw [List.map_append]
    exact exists_more _ _
  cases cs with
  | nil => exact ⟨(ofComponents [c]).text, by simp [ofComponents]⟩
  | cons first rest =>
    cases first with
    | root =>
      obtain ⟨more, hmore⟩ := plain rest
      refine ⟨more, ?_⟩
      show "/" ++ "/".intercalate ((rest ++ [c]).map Component.text) = _
      rw [hmore, ← String.append_assoc]
      rfl
    | here => exact plain (.here :: rest)
    | up => exact plain (.up :: rest)
    | name s => exact plain (.name s :: rest)

/-- What is spelled out is read back piece by piece. -/
theorem pieces_texts {p : Path} {cs : List Component} (h : cs <+: p.components) (hne : cs ≠ [])
    (hroot : cs ≠ [.root]) : (ofComponents cs).pieces = cs.map Component.text := by
  have inner {steps part : List Component} (hsteps : ∀ c ∈ steps, c.IsStep) (hpart : part <+: steps) :
      ∀ c ∈ part, c.IsStep := fun c hc => hsteps c (hpart.subset hc)
  obtain ⟨steps, hsteps, heq | heq | heq⟩ := p.exists_steps <;> rw [heq] at h
  · rw [ofComponents_steps (inner hsteps h), pieces_steps hne (inner hsteps h)]
  · obtain ⟨rest, rfl, hrest⟩ := (List.prefix_cons_iff.1 h).resolve_left hne
    have hne' : rest ≠ [] := by
      rintro rfl
      exact hroot rfl
    have hpieces := pieces_steps hne' (inner hsteps hrest)
    rw [pieces] at hpieces
    rw [List.map_cons, ← hpieces, pieces]
    show List.map String.ofList (splitSlash (String.toList ("/" ++ _))) = _
    rw [String.toList_append]
    exact congrArg (List.map String.ofList) (splitSlash_append_slash [] _)
  · obtain ⟨rest, rfl, hrest⟩ := (List.prefix_cons_iff.1 h).resolve_left hne
    refine pieces_intercalate (List.cons_ne_nil _ _) fun piece hpiece => ?_
    obtain ⟨c, hc, rfl⟩ := List.mem_map.1 hpiece
    rcases List.mem_cons.1 hc with rfl | hc
    · decide
    · exact slash_notMem_text (inner hsteps hrest c hc)

theorem pieces_concat {p : Path} {cs : List Component} {name : String} (h : cs ++ [.name name] <+: p.components) :
    (ofComponents (cs ++ [.name name])).pieces = cs.map Component.text ++ [name] := by
  rw [pieces_texts h (by simp) (by cases cs <;> simp), List.map_append]
  rfl

theorem text_ne_empty {p : Path} {cs : List Component} (h : cs <+: p.components) (hne : cs ≠ []) :
    (ofComponents cs).text ≠ "" := by
  intro hempty
  have hcs := components_of_prefix h
  rw [show ofComponents cs = ⟨""⟩ from eq_of_text hempty] at hcs
  exact hne hcs.symm

end Path

namespace FileTree

open Bundler.Path (Component ofComponents)

variable {t t' u : FileTree} {p : Path} {here k l : Location} {pre cs : List Component} {names : Location}
  {name : String}

/-! ## A directory that is there -/

theorem follow_append_error {ps : List String} {e : IoError} (qs : List String) (h : t.follow here ps = .error e) :
    t.follow here (ps ++ qs) = .error e := by
  induction ps generalizing here with
  | nil =>
    unfold follow at h
    split at h
    · cases h
    next hnone =>
    cases h
    rw [Bool.not_eq_true, Option.isSome_eq_false_iff, Option.isNone_iff_eq_none] at hnone
    cases qs with
    | nil => simp [follow, hnone]
    | cons piece rest => rw [List.nil_append, follow_cons, hnone]
  | cons piece rest ih =>
    rw [follow_cons] at h
    rw [List.cons_append, follow_cons]
    split at h
    · exact h
    · exact h
    · split at h
      · next hlen => rw [if_pos hlen]; exact h
      · next hlen => rw [if_neg hlen]; exact ih h

/-- Directories that stay are found where they were. -/
theorem isDirectory_of_directories (hdir : ∀ k, t.node? k = some .directory → u.node? k = some .directory)
    (h : t.isDirectory p = true) : u.isDirectory p = true := by
  rw [isDirectory_iff, at?_eq_some] at h ⊢
  obtain ⟨hps, hfollow, hn⟩ := h
  exact ⟨hps, follow_of_directories hdir (by rw [hdir _ hn]; rfl) hfollow, hdir _ hn⟩

theorem isName_of_concat (h : cs ++ [.name name] <+: p.components) : IsName name := by
  have hmem : Component.name name ∈ p.components := h.subset (by simp)
  exact (Path.name_mem_components.1 hmem).2

/-- What it takes to make a directory: its parent must be there, and no file in its place. -/
theorem ensureDirectory_concat (h : cs ++ [.name name] <+: p.components) :
    t.ensureDirectory (ofComponents (cs ++ [.name name])) =
      match pieces (ofComponents (cs ++ [.name name])) with
      | .error e => .error e
      | .ok _ =>
        match t.follow [] (cs.map Component.text) with
        | .error e => .error e
        | .ok parent =>
          match t.node? parent with
          | none => .error .notFound
          | some (.file _) => .error .notADirectory
          | some .directory =>
            if maxName < name.utf8ByteSize then .error .nameTooLong
            else
              match t.node? (parent ++ [name]) with
              | none => .ok (t.put (parent ++ [name]) .directory)
              | some .directory => .ok t
              | some (.file _) => .error .alreadyExists := by
  have hname := isName_of_concat h
  have hpieces := Path.pieces_concat h
  have hlast : (cs.map Component.text ++ [name]).reverse.dropWhile (· = "") =
      name :: (cs.map Component.text).reverse := by
    rw [List.reverse_append, List.reverse_singleton, List.singleton_append, List.dropWhile_cons,
      if_neg (by simpa using hname.1)]
  have hdots : ¬ (name = "." ∨ name = "..") := not_or.2 hname.2
  unfold ensureDirectory makeDirectory aim isDirectory at? locate
  cases hps : pieces (ofComponents (cs ++ [.name name])) with
  | error e => simp
  | ok ps =>
    rw [pieces_eq hps, hpieces]
    dsimp only
    rw [hlast]
    dsimp only
    rw [if_neg hdots, List.reverse_reverse]
    cases hfollow : t.follow [] (cs.map Component.text) with
    | error e => simp [follow_append_error [name] hfollow]
    | ok parent =>
      have hthere := (follow_append [name] hfollow).trans (follow_cons t parent name [])
      rcases hparent : t.node? parent with _ | _ | content
      · simp [hparent, hthere]
      · by_cases hlong : maxName < name.utf8ByteSize
        · simp [hparent, hthere, hlong]
        · rcases hnode : t.node? (parent ++ [name]) with _ | _ | content <;>
            simp [hparent, hthere, hlong, hnode, walk_name hname, follow]
      · simp [hparent, hthere]

/-! ## All missing directories -/

theorem ancestry_concat {n : Nat} (h : cs ++ [.name name] <+: p.components) :
    ancestry (n + 1) (ofComponents (cs ++ [.name name])) =
      ofComponents (cs ++ [.name name]) :: ancestry n (ofComponents cs) := by
  rw [ancestry, Path.parent?_eq (Path.components_of_prefix h)]

/-- What was made is a directory. -/
theorem isDirectory_of_ensureDirectory (hw : t.WellLinked) (h : t.ensureDirectory p = .ok t') :
    t'.isDirectory p = true := by
  rcases ensureDirectory_cases h with hmake | ⟨rfl, hthere⟩
  · have hgrows := grows_makeDirectory hw hmake
    obtain ⟨parent, name, slash, haim, -, rfl⟩ := makeDirectory_eq_ok.1 hmake
    exact isDirectory_of_aim (aim_of_directories hgrows.directory haim) (node?_put_self _ (by simp))
  · exact hthere

/-- Whether there is a file at a location. -/
def fileAt (t : FileTree) (l : Location) : Bool :=
  match t.node? l with
  | some (.file _) => true
  | _ => false

/-- Why no directory can be made below another one, whatever directories are there already: the first file on
the way, or the first name that is too long. -/
def blocked (t : FileTree) : Location → List String → Option IoError
  | _, [] => none
  | here, name :: rest =>
    if t.fileAt here then some .notADirectory
    else if maxName < name.utf8ByteSize then some .nameTooLong
    else t.blocked (here ++ [name]) rest

theorem blocked_concat (t : FileTree) (here names : Location) (name : String) :
    t.blocked here (names ++ [name]) = match t.blocked here names with
      | some e => some e
      | none =>
        if t.fileAt (here ++ names) then some .notADirectory
        else if maxName < name.utf8ByteSize then some .nameTooLong
        else none := by
  induction names generalizing here with
  | nil => simp [blocked]
  | cons first rest ih =>
    rw [List.cons_append, blocked, blocked, ih]
    split
    · rfl
    · split
      · rfl
      · simp

/-- A way that is not followed either lacks something or is blocked. -/
theorem blocked_of_follow_error {e : IoError} (hnames : ∀ name ∈ names, IsName name)
    (h : t.follow here names = .error e) (hfound : e ≠ .notFound) : t.blocked here names = some e := by
  induction names generalizing here with
  | nil =>
    unfold follow at h
    split at h
    · cases h
    · cases h
      exact absurd rfl hfound
  | cons name rest ih =>
    rw [List.forall_mem_cons] at hnames
    rw [follow_cons, walk_name hnames.1] at h
    unfold blocked fileAt
    split at h
    · cases h
      exact absurd rfl hfound
    · next hfile =>
      cases h
      simp [hfile]
    · next hdir =>
      rw [hdir]
      split at h
      · next hlong =>
        cases h
        simp [hlong]
      · next hlong => simpa [hlong] using ih hnames.2 h

theorem blocked_of_follow_ok (hnames : ∀ name ∈ names, IsName name) (h : t.follow here names = .ok l) :
    t.blocked here names = none := by
  induction names generalizing here with
  | nil => rfl
  | cons name rest ih =>
    rw [List.forall_mem_cons] at hnames
    obtain ⟨hdir, hlen, hrest⟩ := follow_cons_eq_ok.1 h
    rw [walk_name hnames.1] at hrest
    unfold blocked fileAt
    rw [hdir]
    simpa [Nat.not_lt.2 hlen] using ih hnames.2 hrest

theorem ensureDirectory_ne_notFound (h : cs ++ [.name name] <+: p.components) {e : IoError}
    (hps : pieces (ofComponents (cs ++ [.name name])) = .error e) : e ≠ .notFound := by
  rintro rfl
  unfold pieces at hps
  split at hps
  · cases hps
  split at hps
  · next hempty => exact Path.text_ne_empty h (by simp) hempty
  · split at hps <;> cases hps

/-- The beginning of a path is taken where the path is. -/
theorem pieces_init (h : cs ++ [.name name] <+: p.components) {ps : List String}
    (hps : pieces (ofComponents (cs ++ [.name name])) = .ok ps) (hne : cs ≠ []) :
    pieces (ofComponents cs) = .ok (ofComponents cs).pieces := by
  obtain ⟨more, hmore⟩ := Path.text_concat cs (.name name)
  exact pieces_of_longer hps hmore (Path.text_ne_empty ((List.prefix_append cs _).trans h) hne)

/-- What the steps of a directory that is there are followed to. -/
theorem follow_texts (h : cs <+: p.components) (hdir : cs = [] ∨ t.isDirectory (ofComponents cs) = true) :
    t.follow [] (cs.map Component.text) = .ok (cs.foldl enter []) ∧
      t.node? (cs.foldl enter []) = some .directory := by
  have top : t.follow [] [] = .ok [] ∧ t.node? [] = some .directory := ⟨rfl, rfl⟩
  by_cases hnil : cs = []
  · subst hnil
    exact top
  by_cases hroot : cs = [.root]
  · subst hroot
    exact top
  obtain ⟨-, hfollow, hn⟩ := at?_eq_some.1 (isDirectory_iff.1 (hdir.resolve_left hnil))
  have hplace : place (ofComponents cs) = cs.foldl enter [] := by
    rw [place_eq_foldl, Path.components_of_prefix h]
  rw [Path.pieces_texts h hnil hroot, hplace] at hfollow
  rw [hplace] at hn
  exact ⟨hfollow, hn⟩

/-- The answer to the wish for a directory below one that is there. -/
def verdict (t : FileTree) (pre : List Component) (names : Location) : Except IoError Unit :=
  if (ofComponents (pre ++ names.map .name)).text = "" then .ok ()
  else
    match pieces (ofComponents (pre ++ names.map .name)) with
    | .error e => .error e
    | .ok _ =>
      match t.blocked (pre.foldl enter []) names with
      | some e => .error e
      | none => if t.fileAt (pre.foldl enter [] ++ names) then .error .alreadyExists else .ok ()

/-- Above every file on a way there are directories. -/
def Supported (t : FileTree) (here names : Location) : Prop :=
  ∀ part, part <+: names → t.fileAt (here ++ part) = true →
    ∀ k, k <+: part → k ≠ part → t.node? (here ++ k) = some .directory

theorem Supported.init (h : t.Supported here (names ++ [name])) : t.Supported here names :=
  fun part hpart => h part (hpart.trans (List.prefix_append _ _))

theorem Proper.supported (h : t.Proper) (here names : Location) : t.Supported here names := by
  intro part _ hfile k hk hne
  unfold fileAt at hfile
  split at hfile
  · next hn => exact h.above hn (List.prefix_append_right_inj here |>.2 hk) fun heq => hne (List.append_cancel_left heq)
  · cases hfile

/-- Where there are directories above, nothing is missing. -/
theorem follow_ne_notFound (hnames : ∀ name ∈ names, IsName name)
    (habove : ∀ k, k <+: names → k ≠ names → t.node? (here ++ k) = some .directory)
    (hthere : (t.node? (here ++ names)).isSome) : t.follow here names ≠ .error .notFound := by
  induction names generalizing here with
  | nil =>
    rw [List.append_nil] at hthere
    simp [follow, hthere]
  | cons name rest ih =>
    rw [List.forall_mem_cons] at hnames
    have hhere := habove [] List.nil_prefix (by simp)
    rw [List.append_nil] at hhere
    rw [follow_cons, hhere, walk_name hnames.1]
    dsimp only
    split
    · intro h
      cases h
    · apply ih hnames.2
      · intro k hk hne
        simpa using habove (name :: k) (List.cons_prefix_cons.2 ⟨rfl, hk⟩) (by simpa using hne)
      · simpa using hthere

section Ancestry

variable {n : Nat} {r : Except IoError Unit}

/-- What was made with its parents is a directory. -/
theorem isDirectory_of_ensureAll (hw : t.WellLinked) (h : pre ++ names.map .name <+: p.components)
    (hpre : pre = [] ∨ t.isDirectory (ofComponents pre) = true)
    (hok : t.ensureAll (ancestry n (ofComponents (pre ++ names.map .name))) = (t', .ok ())) :
    pre ++ names.map .name = [] ∨ t'.isDirectory (ofComponents (pre ++ names.map .name)) = true := by
  have hgrows := grows_ensureAll hw (ancestry n (ofComponents (pre ++ names.map .name)))
  rw [hok] at hgrows
  rcases List.eq_nil_or_concat names with rfl | ⟨init, name, rfl⟩
  · rw [List.map_nil, List.append_nil]
    exact hpre.imp id (isDirectory_of_directories hgrows.directory)
  · right
    rw [List.concat_eq_append, List.map_append, List.map_singleton, ← List.append_assoc] at h hok ⊢
    obtain ⟨parents, hparents⟩ := exists_ancestry n (ofComponents (pre ++ init.map .name ++ [.name name]))
    rw [hparents, ensureAll, if_neg (Path.text_ne_empty h (by simp))] at hok
    split at hok
    · next hmake =>
      cases hok
      exact isDirectory_of_ensureDirectory hw hmake
    · split at hok
      · cases hok
      next t₁ hall =>
      have hgrows₁ := grows_ensureAll hw parents
      rw [hall] at hgrows₁
      split at hok
      · next hmake =>
        cases hok
        exact isDirectory_of_ensureDirectory (hgrows₁.wellLinked hw) hmake
      · cases hok
    · cases hok

/-- A directory in one that was found. -/
theorem ensureDirectory_of_follow (h : cs ++ [.name name] <+: p.components) {ps : List String}
    (hps : pieces (ofComponents (cs ++ [.name name])) = .ok ps)
    (hfollow : t.follow [] (cs.map Component.text) = .ok l) (hthere : (t.node? l).isSome) :
    (t.ensureDirectory (ofComponents (cs ++ [.name name]))).map (fun _ => ()) =
      if t.fileAt l then .error .notADirectory
      else if maxName < name.utf8ByteSize then .error .nameTooLong
      else if t.fileAt (l ++ [name]) then .error .alreadyExists
      else .ok () := by
  rw [ensureDirectory_concat h, hps]
  dsimp only
  rw [hfollow]
  unfold fileAt
  rcases hl : t.node? l with _ | _ | content
  · simp [hl] at hthere
  · by_cases hlong : maxName < name.utf8ByteSize
    · simp [hl, hlong, Except.map]
    · rcases hnode : t.node? (l ++ [name]) with _ | _ | content <;> simp [hl, hlong, hnode, Except.map]
  · simp [hl, Except.map]

theorem ensureAll_cons {parents : List Path} (htext : p.text ≠ "")
    (hr : (t.ensureDirectory p).map (fun _ => ()) = r) (hne : r ≠ .error .notFound) :
    (t.ensureAll (p :: parents)).2 = r := by
  subst hr
  rw [ensureAll, if_neg htext]
  rcases hmake : t.ensureDirectory p with e | t'
  · rw [hmake] at hne
    cases e <;> first | rfl | exact absurd rfl hne
  · rfl

theorem ensureAll_cons_notFound {parents : List Path} (htext : p.text ≠ "")
    (hmake : t.ensureDirectory p = .error .notFound) :
    (t.ensureAll (p :: parents)).2 = match t.ensureAll parents with
      | (_, .error e) => .error e
      | (t', .ok ()) => (t'.ensureDirectory p).map fun _ => () := by
  rw [ensureAll, if_neg htext, hmake]
  dsimp only
  rcases t.ensureAll parents with ⟨t', e | _⟩
  · rfl
  · dsimp only
    cases t'.ensureDirectory p <;> rfl

theorem fileAt_of_grows (h : Grows t t') (l : Location) : t'.fileAt l = t.fileAt l := by
  have hiff {u : FileTree} : u.fileAt l = true ↔ ∃ content, u.node? l = some (.file content) := by
    unfold fileAt
    rcases u.node? l with _ | _ | content <;> simp
  rw [Bool.eq_iff_iff, hiff, hiff]
  simp only [h.file_iff]

/-- A directory whose parent is missing is made when its parents have been made. -/
theorem ensureAll_of_missing {m : Nat} (hw : t.WellLinked)
    (h : pre ++ names.map .name ++ [.name name] <+: p.components)
    (hpre : pre = [] ∨ t.isDirectory (ofComponents pre) = true) {ps : List String}
    (hps : pieces (ofComponents (pre ++ names.map .name ++ [.name name])) = .ok ps)
    (hmake : t.ensureDirectory (ofComponents (pre ++ names.map .name ++ [.name name])) = .error .notFound)
    (hparents : (t.ensureAll (ancestry m (ofComponents (pre ++ names.map .name)))).2 = r) :
    (t.ensureAll (ofComponents (pre ++ names.map .name ++ [.name name]) ::
        ancestry m (ofComponents (pre ++ names.map .name)))).2 =
      r.bind fun _ =>
        if maxName < name.utf8ByteSize then .error .nameTooLong
        else if t.fileAt (pre.foldl enter [] ++ names ++ [name]) then .error .alreadyExists
        else .ok () := by
  have hcs := (List.prefix_append (pre ++ names.map Component.name) [.name name]).trans h
  have hgrows := grows_ensureAll hw (ancestry m (ofComponents (pre ++ names.map .name)))
  rw [ensureAll_cons_notFound (Path.text_ne_empty h (by simp)) hmake, ← hparents]
  rcases hall : t.ensureAll (ancestry m (ofComponents (pre ++ names.map .name))) with ⟨t₁, e | _⟩
  · rw [hall]
    rfl
  rw [hall] at hgrows ⊢
  obtain ⟨hfollow₁, hdir₁⟩ := follow_texts hcs (isDirectory_of_ensureAll hw hcs hpre hall)
  have hmake₁ := ensureDirectory_of_follow h hps hfollow₁ (by rw [hdir₁]; rfl)
  have hnone : t₁.fileAt ((pre ++ names.map Component.name).foldl enter []) = false := by
    rw [fileAt, hdir₁]
  rw [hnone, if_neg Bool.false_ne_true, List.foldl_append, foldl_enter_names, fileAt_of_grows hgrows] at hmake₁
  exact hmake₁

/-- What is asked of a directory below one that is there depends on the way to its parent. -/
theorem verdict_concat (h : pre ++ names.map .name ++ [.name name] <+: p.components) {ps : List String}
    (hps : pieces (ofComponents (pre ++ names.map .name ++ [.name name])) = .ok ps) :
    t.verdict pre (names ++ [name]) =
      match t.blocked (pre.foldl enter []) names with
      | some e => .error e
      | none =>
        if t.fileAt (pre.foldl enter [] ++ names) then .error .notADirectory
        else if maxName < name.utf8ByteSize then .error .nameTooLong
        else if t.fileAt (pre.foldl enter [] ++ names ++ [name]) then .error .alreadyExists
        else .ok () := by
  rw [verdict, List.map_append, List.map_singleton, ← List.append_assoc, if_neg (Path.text_ne_empty h (by simp)), hps,
    blocked_concat, ← List.append_assoc]
  cases t.blocked (pre.foldl enter []) names with
  | some e => rfl
  | none =>
    by_cases hfile : t.fileAt (pre.foldl enter [] ++ names) = true
    · simp [hfile]
    · by_cases hlong : maxName < name.utf8ByteSize <;> simp [hfile, hlong]

theorem verdict_concat_error (h : pre ++ names.map .name ++ [.name name] <+: p.components) {e : IoError}
    (hps : pieces (ofComponents (pre ++ names.map .name ++ [.name name])) = .error e) :
    t.verdict pre (names ++ [name]) = .error e := by
  rw [verdict, List.map_append, List.map_singleton, ← List.append_assoc, if_neg (Path.text_ne_empty h (by simp)), hps]

/-- Names below a directory that is there are followed from it. -/
theorem follow_below (h : pre ++ names.map .name <+: p.components)
    (hpre : pre = [] ∨ t.isDirectory (ofComponents pre) = true) :
    t.follow [] ((pre ++ names.map Component.name).map Component.text) = t.follow (pre.foldl enter []) names := by
  have htexts : (names.map Component.name).map Component.text = names := by
    rw [List.map_map]
    exact List.map_id names
  rw [List.map_append, htexts, follow_append _ (follow_texts ((List.prefix_append _ _).trans h) hpre).1]

/-- A directory in one that is not reached. -/
theorem ensureDirectory_of_follow_error (h : cs ++ [.name name] <+: p.components) {ps : List String} {e : IoError}
    (hps : pieces (ofComponents (cs ++ [.name name])) = .ok ps)
    (hfollow : t.follow [] (cs.map Component.text) = .error e) :
    t.ensureDirectory (ofComponents (cs ++ [.name name])) = .error e := by
  rw [ensureDirectory_concat h, hps]
  dsimp only
  rw [hfollow]

/-- A directory that is there does not have to be made. -/
theorem ensureAll_there (h : pre <+: p.components) (hpre : pre = [] ∨ t.isDirectory (ofComponents pre) = true) :
    (t.ensureAll (ancestry n (ofComponents pre))).2 = t.verdict pre [] := by
  obtain ⟨parents, hparents⟩ := exists_ancestry n (ofComponents pre)
  rw [hparents, ensureAll, verdict, List.map_nil, List.append_nil]
  split
  · rfl
  next htext =>
  have hnil : pre ≠ [] := by
    rintro rfl
    exact htext rfl
  have hdir := hpre.resolve_left hnil
  obtain ⟨-, hn⟩ := follow_texts h hpre
  obtain ⟨hps, -⟩ := at?_eq_some.1 (isDirectory_iff.1 hdir)
  rw [ensureDirectory_of_isDirectory hdir, hps]
  simp [blocked, fileAt, hn]

/-- A directory in one that is there is made, or it is refused at once. -/
theorem ensureAll_of_follow {parents : List Path} (h : pre ++ names.map .name ++ [.name name] <+: p.components)
    (hpre : pre = [] ∨ t.isDirectory (ofComponents pre) = true) (hnames : ∀ s ∈ names, IsName s) {ps : List String}
    (hps : pieces (ofComponents (pre ++ names.map .name ++ [.name name])) = .ok ps)
    (hfollow : t.follow (pre.foldl enter []) names = .ok l) :
    (t.ensureAll (ofComponents (pre ++ names.map .name ++ [.name name]) :: parents)).2 =
      t.verdict pre (names ++ [name]) := by
  have hway := (follow_below ((List.prefix_append _ _).trans h) hpre).trans hfollow
  have hl : l = pre.foldl enter [] ++ names := (follow_eq hfollow).trans (foldl_walk_names hnames)
  have hmake := ensureDirectory_of_follow h hps hway (directory_of_mem_along hfollow).1
  rw [hl] at hmake
  rw [ensureAll_cons (Path.text_ne_empty h (by simp)) hmake
      (by split <;> (try split) <;> (try split) <;> intro h <;> cases h),
    verdict_concat h hps, blocked_of_follow_ok hnames hfollow]

/-- Where the parent of a directory was not found, the answer is the one for the parent, and for the directory then. -/
theorem ensureAll_of_notFound {m : Nat} (hw : t.WellLinked)
    (h : pre ++ names.map .name ++ [.name name] <+: p.components)
    (hpre : pre = [] ∨ t.isDirectory (ofComponents pre) = true) (hs : t.Supported (pre.foldl enter []) names)
    (hnames : ∀ s ∈ names, IsName s) {ps : List String}
    (hps : pieces (ofComponents (pre ++ names.map .name ++ [.name name])) = .ok ps)
    (hfollow : t.follow (pre.foldl enter []) names = .error .notFound)
    (hparents : (t.ensureAll (ancestry m (ofComponents (pre ++ names.map .name)))).2 = t.verdict pre names) :
    (t.ensureAll (ofComponents (pre ++ names.map .name ++ [.name name]) ::
        ancestry m (ofComponents (pre ++ names.map .name)))).2 = t.verdict pre (names ++ [name]) := by
  have hcs := (List.prefix_append (pre ++ names.map Component.name) [.name name]).trans h
  have hmake := ensureDirectory_of_follow_error h hps ((follow_below hcs hpre).trans hfollow)
  have hne : pre ++ names.map Component.name ≠ [] := by
    intro hnil
    obtain ⟨rfl, hnil⟩ := List.append_eq_nil_iff.1 hnil
    obtain rfl := List.map_eq_nil_iff.1 hnil
    cases hfollow
  -- a file above would be in the way of what was not found
  have hfile : ¬ t.fileAt (pre.foldl enter [] ++ names) = true := by
    intro hfile
    refine follow_ne_notFound hnames (hs names (List.prefix_refl _) hfile) ?_ hfollow
    unfold fileAt at hfile
    split at hfile
    · next hn => rw [hn]; rfl
    · cases hfile
  rw [ensureAll_of_missing hw h hpre hps hmake hparents, verdict_concat h hps, verdict,
    if_neg (Path.text_ne_empty hcs hne), pieces_init h hps hne, if_neg hfile, if_neg hfile]
  dsimp only
  cases t.blocked (pre.foldl enter []) names <;> rfl

/-- Whether a directory and its parents can be made depends on what blocks the way. -/
theorem ensureAll_ancestry (hw : t.WellLinked) (h : pre ++ names.map .name <+: p.components)
    (hpre : pre = [] ∨ t.isDirectory (ofComponents pre) = true) (hs : t.Supported (pre.foldl enter []) names)
    (hn : names.length ≤ n) :
    (t.ensureAll (ancestry n (ofComponents (pre ++ names.map .name)))).2 = t.verdict pre names := by
  -- the last name is the first that is tried, and what is above it only where that is not found
  induction names using List.reverseRecOn generalizing n with
  | nil =>
    rw [List.map_nil, List.append_nil] at h ⊢
    exact ensureAll_there h hpre
  | append_singleton names name ih =>
    obtain ⟨m, rfl⟩ : ∃ m, n = m + 1 := Nat.exists_eq_succ_of_ne_zero (by rintro rfl; simp at hn)
    rw [List.map_append, List.map_singleton, ← List.append_assoc] at h ⊢
    rw [ancestry_concat h]
    have hcs := (List.prefix_append (pre ++ names.map Component.name) [.name name]).trans h
    have htext := Path.text_ne_empty h (by simp)
    have hnames : ∀ s ∈ names, IsName s := fun s hs =>
      (Path.name_mem_components.1 (hcs.subset (List.mem_append_right _ (List.mem_map_of_mem hs)))).2
    cases hps : pieces (ofComponents (pre ++ names.map .name ++ [.name name])) with
    | error e =>
      have hmake : (t.ensureDirectory (ofComponents (pre ++ names.map .name ++ [.name name]))).map (fun _ => ()) =
          .error e := by
        rw [ensureDirectory_concat h, hps]
        rfl
      rw [ensureAll_cons htext hmake (by simpa using ensureDirectory_ne_notFound h hps), verdict_concat_error h hps]
    | ok ps =>
    cases hfollow : t.follow (pre.foldl enter []) names with
    | ok l => exact ensureAll_of_follow h hpre hnames hps hfollow
    | error e =>
    by_cases hfound : e = .notFound
    · subst hfound
      exact ensureAll_of_notFound hw h hpre hs.init hnames hps hfollow (ih hcs hs.init (by simpa using hn))
    · have hmake := ensureDirectory_of_follow_error h hps ((follow_below hcs hpre).trans hfollow)
      rw [ensureAll_cons htext (congrArg (Except.map fun _ => ()) hmake) (by simpa [Except.map] using hfound),
        verdict_concat h hps, blocked_of_follow_error hnames hfollow hfound]
      rfl

end Ancestry
/-! ## The directory of a file -/

/-- Through directories that are there the path leads down to its directory. -/
def Steady (t : FileTree) (p : Path) : Prop :=
  ∃ (pre : List Component) (names : List String), p.components.dropLast = pre ++ names.map .name ∧
    (pre = [] ∨ t.isDirectory (ofComponents pre) = true)

/-- A path that goes down from the root is steady. -/
theorem steady_of_names (h : p.components.dropLast = .root :: names.map .name) : t.Steady p :=
  ⟨[.root], names, h, .inr rfl⟩

theorem makeParent_eq (hc : p.components = cs ++ [.name name]) :
    t.makeParent p = t.ensureAll (ancestry cs.length (ofComponents cs)) := by
  have hcs : cs <+: p.components := hc ▸ List.prefix_append _ _
  rw [makeParent, Path.parent?_eq hc]
  dsimp only
  rw [makeDirectories, Path.components_of_prefix hcs]

/-- A directory that is there need not be made. -/
theorem makeParent_of_isDirectory (hc : p.components = cs ++ [.name name])
    (h : cs = [] ∨ t.isDirectory (ofComponents cs) = true) : t.makeParent p = (t, .ok ()) := by
  obtain ⟨parents, hparents⟩ := exists_ancestry cs.length (ofComponents cs)
  rw [makeParent_eq hc, hparents, ensureAll]
  split
  · rfl
  next htext =>
  have hdir := h.resolve_left fun hnil => htext (by rw [hnil]; rfl)
  rw [ensureDirectory_of_isDirectory hdir]

theorem isDirectory_of_makeParent (hw : t.WellLinked) (hc : p.components = cs ++ [.name name]) (hs : t.Steady p)
    (h : t.makeParent p = (t', .ok ())) : cs = [] ∨ t'.isDirectory (ofComponents cs) = true := by
  obtain ⟨pre, names, hsplit, hpre⟩ := hs
  have hcs : cs = pre ++ names.map .name := by rw [← hsplit, hc, List.dropLast_concat]
  rw [makeParent_eq hc] at h
  subst hcs
  exact isDirectory_of_ensureAll hw (hc ▸ List.prefix_append _ _) hpre h

theorem mem_along_texts (hcs : ∀ c ∈ cs, c.IsStep ∨ c = .root ∨ c = .here) (h : k ∈ along here cs) :
    k ∈ along here ((cs.map Component.text).filterMap Component.ofPiece) := by
  induction cs generalizing here with
  | nil => exact h
  | cons c cs ih =>
    rw [List.forall_mem_cons] at hcs
    rw [along, List.mem_cons] at h
    rw [List.map_cons, mem_along_cons, walk_ofPiece]
    refine h.imp id fun h => ih hcs.2 ?_
    rcases hcs.1 with hstep | rfl | rfl
    · rw [Path.ofPiece_text hstep]
      exact h
    · exact h
    · exact h

/-- A directory that is there is reached through directories. -/
theorem directory_of_isDirectory (hcs : cs <+: p.components)
    (h : cs = [] ∨ t.isDirectory (ofComponents cs) = true) (hk : k ∈ along [] cs) : t.node? k = some .directory := by
  obtain ⟨hfollow, hdir⟩ := follow_texts hcs h
  have hsteps : ∀ c ∈ cs, c.IsStep ∨ c = .root ∨ c = .here := fun c hc => Path.mem_components (hcs.subset hc)
  rcases (directory_of_mem_along hfollow).2 k (mem_along_texts hsteps hk) with rfl | hdir'
  · exact hdir
  · exact hdir'

/-- A steady path leads through what is there, or down to its directory. -/
theorem Steady.cases (hs : t.Steady p) (hc : p.components = cs ++ [.name name]) (hk : k ∈ along [] cs) :
    t.node? k = some .directory ∨ k <+: cs.foldl enter [] := by
  obtain ⟨pre, names, hsplit, hpre⟩ := hs
  have hcs : cs = pre ++ names.map .name := by rw [← hsplit, hc, List.dropLast_concat]
  subst hcs
  have hvalid : pre <+: p.components :=
    (List.prefix_append pre _).trans (hc ▸ List.prefix_append (pre ++ names.map Component.name) _)
  rcases mem_along_append.1 hk with hk | hk
  · exact .inl (directory_of_isDirectory hvalid hpre hk)
  · obtain ⟨part, hpart, rfl⟩ := mem_along_names.1 hk
    right
    rw [List.foldl_append, foldl_enter_names]
    exact (List.prefix_append_right_inj _).2 hpart

theorem Steady.of_directories (hdir : ∀ k, t.node? k = some .directory → u.node? k = some .directory)
    (hs : t.Steady p) : u.Steady p := by
  obtain ⟨pre, names, hsplit, hpre⟩ := hs
  exact ⟨pre, names, hsplit, hpre.imp id (isDirectory_of_directories hdir)⟩

theorem place_eq_concat (hc : p.components = cs ++ [.name name]) : place p = cs.foldl enter [] ++ [name] := by
  rw [place_eq_foldl, hc, List.foldl_append]
  rfl

theorem mem_trail_concat (hc : p.components = cs ++ [.name name]) : k ∈ trail p ↔ k ∈ along [] cs ∨ k = place p := by
  have hplace := place_eq_concat hc
  rw [trail, hc, mem_along_append, hplace]
  constructor
  · rintro (hk | hk)
    · exact .inl hk
    · simp only [along, List.mem_cons, List.not_mem_nil, or_false] at hk
      rcases hk with rfl | rfl
      · exact .inl (foldl_mem_along _ _)
      · exact .inr rfl
  · rintro (hk | rfl)
    · exact .inl hk
    · exact .inr (by simp [along, enter])

/-- Past directories that are made a steady path leads, if none of them is in its place. -/
theorem Steady.past {W : Location → Prop} (hs : t.Steady p) (hc : p.components = cs ++ [.name name])
    (hW : W (place p) → t.node? (place p) ≠ none) : Past (fun l => W l ∧ t.node? l = none) p := by
  rintro k hk ⟨hw, hnone⟩
  rcases (mem_trail_concat hc).1 hk with hk | rfl
  · rcases hs.cases hc hk with hdir | hpre
    · rw [hnone] at hdir
      cases hdir
    · rw [place_eq_concat hc]
      refine ⟨hpre.trans (List.prefix_append _ _), fun heq => ?_⟩
      have hlength := hpre.length_le
      rw [heq, List.length_append, List.length_singleton] at hlength
      omega
  · exact absurd hnone (hW hw)

/-- Whether the directory of a path can be made does not depend on the directories that are there. -/
theorem makeParent_congr (hp : t.Proper) (hw : t.WellLinked) (hw' : u.WellLinked)
    (hc : p.components = cs ++ [.name name]) (hs : t.Steady p)
    (hdir : ∀ k, t.node? k = some .directory → u.node? k = some .directory)
    (hway : ∀ k ∈ along [] cs, u.node? k = t.node? k ∨ t.node? k = none ∧ u.node? k = some .directory) :
    (u.makeParent p).2 = (t.makeParent p).2 := by
  obtain ⟨pre, names, hsplit, hpre⟩ := hs
  have hcs : cs = pre ++ names.map .name := by rw [← hsplit, hc, List.dropLast_concat]
  subst hcs
  have hvalid : pre ++ names.map Component.name <+: p.components := hc ▸ List.prefix_append _ _
  have hfile (part : Location) (hpart : part <+: names) :
      u.fileAt (pre.foldl enter [] ++ part) = t.fileAt (pre.foldl enter [] ++ part) := by
    have hk := hway (pre.foldl enter [] ++ part)
      (mem_along_append.2 (.inr (mem_along_names.2 ⟨part, hpart, rfl⟩)))
    unfold fileAt
    rcases hk with heq | ⟨hnone, hmade⟩
    · rw [heq]
    · rw [hnone, hmade]
  have hsupported := hp.supported (pre.foldl enter []) names
  have hsupported' : u.Supported (pre.foldl enter []) names := by
    intro part hpart hthere k hk hne
    rw [hfile part hpart] at hthere
    exact hdir _ (hsupported part hpart hthere k hk hne)
  have hlen : names.length ≤ (pre ++ names.map Component.name).length := by simp
  rw [makeParent_eq hc, makeParent_eq hc, ensureAll_ancestry hw hvalid hpre hsupported hlen,
    ensureAll_ancestry hw' hvalid (hpre.imp id (isDirectory_of_directories hdir)) hsupported' hlen]
  have hblocked (part rest : Location) (hpart : part ++ rest = names) :
      u.blocked (pre.foldl enter [] ++ part) rest = t.blocked (pre.foldl enter [] ++ part) rest := by
    induction rest generalizing part with
    | nil => rfl
    | cons name rest ih =>
      unfold blocked
      rw [hfile part ⟨_, hpart⟩, List.append_assoc, ih (part ++ [name]) (by simpa using hpart)]
  have hall := hblocked [] names rfl
  rw [List.append_nil] at hall
  unfold verdict
  rw [hall, hfile names List.prefix_rfl]

/-! ## What is made -/

theorem touched_makeDirectory (hw : t.WellLinked) (h : t.makeDirectory p = .ok t') :
    Touched (fun _ => False) (· = place p) t t' := by
  have hgrows := grows_makeDirectory hw h
  obtain ⟨hne, hnone, rfl⟩ := makeDirectory_eq h
  refine ⟨fun l _ => ?_, hgrows.directory, nofun, hgrows.links⟩
  by_cases hl : l = place p
  · subst hl
    exact .inr ⟨rfl, hnone, node?_put_self _ hne⟩
  · left
    by_cases htop : l = []
    · subst htop
      rfl
    · rw [node?_put _ _ _ htop, names_of_alone (hw.alone fun content => by simp [hnone]), if_neg]
      simpa using hl

theorem touched_ensureDirectory (hw : t.WellLinked) (h : t.ensureDirectory p = .ok t') :
    Touched (fun _ => False) (· = place p) t t' := by
  rcases ensureDirectory_cases h with hmake | ⟨rfl, -⟩
  · exact touched_makeDirectory hw hmake
  · exact .refl ..

theorem touched_ensureAll {W : Location → Prop} (hw : t.WellLinked) (paths : List Path)
    (hpaths : ∀ q ∈ paths, W (place q)) : Touched (fun _ => False) W t (t.ensureAll paths).1 := by
  have single {u u' : FileTree} {q : Path} (hq : W (place q)) (h : Touched (fun _ => False) (· = place q) u u') :
      Touched (fun _ => False) W u u' := h.mono (fun _ h => h) (fun _ h => h ▸ hq) nofun
  induction paths with
  | nil => exact .refl ..
  | cons q parents ih =>
    rw [List.forall_mem_cons] at hpaths
    have hparents := ih hpaths.2
    unfold ensureAll
    split
    · exact .refl ..
    split
    · next hq => exact single hpaths.1 (touched_ensureDirectory hw hq)
    · have hgrows := grows_ensureAll hw parents
      split
      · next hall =>
        rw [hall] at hparents
        exact hparents
      · next hall =>
        rw [hall] at hparents hgrows
        split
        · next hq => exact hparents.trans (single hpaths.1 (touched_ensureDirectory (hgrows.wellLinked hw) hq))
        · exact hparents
    · exact .refl ..

theorem mem_ancestry {n : Nat} {q : Path} (hcs : cs <+: p.components) (h : q ∈ ancestry n (ofComponents cs)) :
    ∃ part, part <+: cs ∧ q = ofComponents part := by
  induction n generalizing cs with
  | zero => exact ⟨cs, List.prefix_rfl, by simpa [ancestry] using h⟩
  | succ n ih =>
    rw [ancestry, Path.parent?, Path.components_of_prefix hcs] at h
    have hself (h : q = ofComponents cs) : ∃ part, part <+: cs ∧ q = ofComponents part := ⟨cs, List.prefix_rfl, h⟩
    split at h
    · exact hself (by simpa using h)
    next parent hparent =>
    rcases List.mem_cons.1 h with h | h
    · exact hself h
    split at hparent
    · cases hparent
    · cases hparent
    cases hparent
    obtain ⟨part, hpart, hq⟩ := ih ((List.dropLast_prefix cs).trans hcs) h
    exact ⟨part, hpart.trans (List.dropLast_prefix cs), hq⟩

/-- Nothing is made but directories that the path leads through. -/
theorem touched_makeParent (hw : t.WellLinked) (hc : p.components = cs ++ [.name name]) :
    Touched (fun _ => False) (· ∈ along [] cs) t (t.makeParent p).1 := by
  have hcs : cs <+: p.components := hc ▸ List.prefix_append _ _
  rw [makeParent_eq hc]
  refine touched_ensureAll hw _ fun q hq => ?_
  obtain ⟨part, hpart, rfl⟩ := mem_ancestry hcs hq
  rw [place_eq_foldl, Path.components_of_prefix (hpart.trans hcs)]
  exact mem_along_of_prefix hpart (foldl_mem_along _ _)

end FileTree
end Bundler
