import Bundler.Proofs.Path.Joined
/-!
# The normal form of a path

Normalizing leaves names, behind a root or behind some `..` (`canonical_normalize`). What it leaves it leaves as it is
(`foldl_normalize`), so it makes no difference whether a path is normalized before another one is joined to it, and a
path has one normal form however it is reached (`normalize_canonical`). A relative one with a longer last name is a
normal form too (`normalize_append`).
-/

namespace Bundler.Path

variable {p q : Path} {c : Component} {cs taken : List Component}

/-! ## What is taken -/

/-- Names on top of a root, the last one first. -/
def Rooted (taken : List Component) : Prop := ∃ names : List String, taken = names.map .name ++ [.root]

/-- Names on top of some `..`, the last one first. -/
def Climbing (taken : List Component) : Prop :=
  ∃ (names : List String) (ups : Nat), taken = names.map .name ++ List.replicate ups .up

theorem Rooted.descend (h : Rooted taken) (c : Component) : Rooted (descend taken c) := by
  obtain ⟨names, rfl⟩ := h
  cases c with
  | root => exact ⟨[], rfl⟩
  | here => exact ⟨names, by cases names <;> rfl⟩
  | name s => exact ⟨s :: names, by cases names <;> rfl⟩
  | up =>
    cases names with
    | nil => exact ⟨[], rfl⟩
    | cons s names => exact ⟨names, rfl⟩

theorem Climbing.descend (h : Climbing taken) (hc : c ≠ .root) : Climbing (descend taken c) := by
  obtain ⟨names, ups, rfl⟩ := h
  cases c with
  | root => exact absurd rfl hc
  | here => exact ⟨names, ups, by cases names <;> cases ups <;> rfl⟩
  | name s => exact ⟨s :: names, ups, by cases names <;> cases ups <;> rfl⟩
  | up =>
    cases names with
    | nil => exact ⟨[], ups + 1, by cases ups <;> rfl⟩
    | cons s names => exact ⟨names, ups, rfl⟩

theorem Rooted.foldl (h : Rooted taken) (cs : List Component) : Rooted (cs.foldl Path.descend taken) := by
  induction cs generalizing taken with
  | nil => exact h
  | cons c cs ih => exact ih (h.descend c)

theorem Climbing.foldl (h : Climbing taken) (hcs : .root ∉ cs) : Climbing (cs.foldl Path.descend taken) := by
  induction cs generalizing taken with
  | nil => exact h
  | cons c cs ih =>
    rw [List.mem_cons, not_or] at hcs
    exact ih (h.descend (Ne.symm hcs.1)) hcs.2

theorem rooted_components (h : p.isAbsolute = true) : Rooted (p.components.foldl descend []) := by
  obtain ⟨rest, hrest⟩ := List.head?_eq_some_iff.1 (isAbsolute_iff.1 h)
  rw [hrest]
  exact Rooted.foldl ⟨[], rfl⟩ rest

theorem climbing_components (h : p.isAbsolute = false) : Climbing (p.components.foldl descend []) :=
  Climbing.foldl ⟨[], 0, rfl⟩ (root_notMem_components h)

/-! ## Twice is once -/

theorem foldl_names (names : List String) (taken : List Component) :
    (names.map .name).foldl descend taken = (names.map .name).reverse ++ taken := by
  induction names generalizing taken with
  | nil => rfl
  | cons s names ih =>
    have hname : descend taken (.name s) = .name s :: taken := by unfold descend; split <;> simp_all
    rw [List.map_cons, List.foldl_cons, hname, ih, List.reverse_cons, List.append_assoc, List.singleton_append]

theorem foldl_ups (ups : Nat) : (List.replicate ups .up).foldl descend [] = List.replicate ups .up := by
  induction ups with
  | zero => rfl
  | succ ups ih =>
    rw [List.replicate_succ', List.foldl_append, ih, ← List.replicate_succ', List.replicate_succ]
    cases ups <;> rfl

/-- What was taken is taken again as it is. -/
theorem Rooted.foldl_reverse (h : Rooted taken) : taken.reverse.foldl Path.descend [] = taken := by
  obtain ⟨names, rfl⟩ := h
  rw [List.reverse_append, ← List.map_reverse, List.foldl_append, foldl_names, ← List.map_reverse, List.reverse_reverse]
  rfl

theorem Climbing.foldl_reverse (h : Climbing taken) : taken.reverse.foldl Path.descend [] = taken := by
  obtain ⟨names, ups, rfl⟩ := h
  rw [List.reverse_append, List.reverse_replicate, ← List.map_reverse, List.foldl_append, foldl_ups, foldl_names,
    ← List.map_reverse, List.reverse_reverse]

theorem foldl_normalize (p : Path) : p.normalize.components.foldl descend [] = p.components.foldl descend [] := by
  rw [components_normalize]
  cases habs : p.isAbsolute with
  | true => exact (rooted_components habs).foldl_reverse
  | false => exact (climbing_components habs).foldl_reverse

/-! ## One after the other -/

/-- What a path consists of is what its pieces say, but for a dot in front. -/
theorem foldl_components (h : q.isAbsolute = false) (taken : List Component) :
    q.components.foldl descend taken = (q.pieces.filterMap Component.ofPiece).foldl descend taken := by
  have hhere : descend taken .here = taken := by unfold descend; split <;> simp_all
  obtain ⟨first, rest, hpieces⟩ := List.exists_cons_of_ne_nil (pieces_ne_nil q)
  rw [components, hpieces]
  dsimp only
  rw [h, if_neg Bool.false_ne_true]
  split
  · next hdot =>
    subst hdot
    rw [List.foldl_cons, hhere]
    rfl
  · rw [List.filterMap_cons]
    cases Component.ofPiece first <;> rfl

/-- A path that is joined goes on from where the first one led. -/
theorem foldl_join (p : Path) (hq : q.isAbsolute = false) :
    (p.join q).components.foldl descend [] = q.components.foldl descend (p.components.foldl descend []) := by
  by_cases hp : p.text = ""
  · have hjoin : p.join q = q := eq_of_text (by rw [text_join hq, hp]; simp)
    rw [hjoin, show p = ⟨""⟩ from eq_of_text hp]
    rfl
  · rw [components_join hq hp, List.foldl_append, foldl_components hq]

/-! ## The form -/

/-- How a path is spelled that has nothing to resolve: no dot, no slash too many, and a `..` only where nothing is in
front of it that it could take back. -/
structure Canonical (p : Path) : Prop where
  dotless : "." ∉ p.pieces
  single : ¬ ['/', '/'] <:+: p.text.toList
  unended : p.text.toList.getLast? = some '/' → p.text = "/"
  absolute : p.isAbsolute = true → ∃ names : List String, p.components = .root :: names.map .name
  relative : p.isAbsolute = false →
    ∃ (ups : Nat) (names : List String), p.components = List.replicate ups .up ++ names.map .name

/-- Between two slashes in a row there is an empty piece, and it is neither the first nor the last one. -/
theorem pieces_of_slashes (h : ['/', '/'] <:+: p.text.toList) :
    ∃ before after, before ≠ [] ∧ after ≠ [] ∧ p.pieces = before ++ "" :: after := by
  obtain ⟨front, back, htext⟩ := h
  refine ⟨(splitSlash front).map String.ofList, (splitSlash back).map String.ofList,
    by simpa using splitSlash_ne_nil front, by simpa using splitSlash_ne_nil back, ?_⟩
  have hsplit : splitSlash p.text.toList = splitSlash front ++ [] :: splitSlash back := by
    rw [← htext, List.append_assoc, List.cons_append, List.singleton_append, splitSlash_append_slash]
    exact congrArg _ (splitSlash_append_slash [] back)
  rw [pieces, hsplit, List.map_append]
  rfl

/-- Behind a slash at the end there is an empty piece. -/
theorem pieces_of_ended (h : p.text.toList.getLast? = some '/') :
    ∃ before, before ≠ [] ∧ p.pieces = before ++ [""] := by
  obtain ⟨front, hfront⟩ := List.getLast?_eq_some_iff.1 h
  refine ⟨(splitSlash front).map String.ofList, by simpa using splitSlash_ne_nil front, ?_⟩
  rw [pieces, hfront, splitSlash_append_slash, List.map_append]
  rfl

/-- The pieces of a neat path are its steps, behind an empty one if it is absolute. -/
theorem Neat.pieces (h : p.Neat) : p.text = "" ∨ p.text = "/" ∨
    ∃ steps : List Component, (∀ c ∈ steps, c.IsStep) ∧
      (p.pieces = steps.map Component.text ∨ p.pieces = "" :: steps.map Component.text) := by
  obtain ⟨steps, hsteps, rfl | rfl⟩ := h
  · cases steps with
    | nil => exact .inl rfl
    | cons first rest =>
      refine .inr (.inr ⟨first :: rest, hsteps, .inl ?_⟩)
      rw [ofComponents_steps hsteps, pieces_steps (List.cons_ne_nil _ _) hsteps]
  · cases steps with
    | nil => exact .inr (.inl rfl)
    | cons first rest =>
      refine .inr (.inr ⟨first :: rest, hsteps, .inr ?_⟩)
      rw [← pieces_steps (List.cons_ne_nil _ _) hsteps, ofComponents, Path.pieces, Path.pieces, String.toList_append]
      exact congrArg (List.map String.ofList) (splitSlash_append_slash [] _)

/-- No piece of the steps goes without saying. -/
theorem notMem_steps {steps : List Component} (h : ∀ c ∈ steps, c.IsStep) {piece : String}
    (hpiece : Component.ofPiece piece = none) : piece ∉ steps.map Component.text := by
  rw [List.mem_map]
  rintro ⟨c, hc, rfl⟩
  rw [ofPiece_text (h c hc)] at hpiece
  cases hpiece

namespace Neat

theorem dot_notMem_pieces (h : p.Neat) : "." ∉ p.pieces := by
  rcases h.pieces with htext | htext | ⟨steps, hsteps, hpieces | hpieces⟩
  · rw [eq_of_text (q := ⟨""⟩) htext]
    decide
  · rw [eq_of_text (q := ⟨"/"⟩) htext]
    decide
  · rw [hpieces]
    exact notMem_steps hsteps rfl
  · rw [hpieces, List.mem_cons, not_or]
    exact ⟨by decide, notMem_steps hsteps rfl⟩

/-- An empty piece that is not the first one stands behind the root alone. -/
theorem root_of_empty (h : p.Neat) {before after : List String} (hbefore : before ≠ [])
    (hsplit : p.pieces = before ++ "" :: after) : p.text = "/" ∧ after = [] := by
  obtain ⟨first, before, rfl⟩ := List.exists_cons_of_ne_nil hbefore
  rw [List.cons_append] at hsplit
  have hmem : "" ∈ before ++ "" :: after := List.mem_append_right _ List.mem_cons_self
  rcases h.pieces with htext | htext | ⟨steps, hsteps, hpieces | hpieces⟩
  · rw [eq_of_text (q := ⟨""⟩) htext, show (Path.mk "").pieces = [""] by decide, List.cons.injEq] at hsplit
    rw [← hsplit.2] at hmem
    cases hmem
  · rw [eq_of_text (q := ⟨"/"⟩) htext, show (Path.mk "/").pieces = ["", ""] by decide, List.cons.injEq] at hsplit
    cases before with
    | nil => exact ⟨htext, (List.cons.inj hsplit.2).2.symm⟩
    | cons second before => simp at hsplit
  · rw [hpieces] at hsplit
    exact absurd (hsplit ▸ List.mem_cons_of_mem _ hmem) (notMem_steps hsteps rfl)
  · rw [hpieces, List.cons.injEq] at hsplit
    exact absurd (hsplit.2 ▸ hmem) (notMem_steps hsteps rfl)

theorem not_slashes (h : p.Neat) : ¬ ['/', '/'] <:+: p.text.toList := by
  intro hslashes
  obtain ⟨before, after, hbefore, hafter, hsplit⟩ := pieces_of_slashes hslashes
  exact hafter (h.root_of_empty hbefore hsplit).2

theorem eq_root_of_ended (h : p.Neat) (hend : p.text.toList.getLast? = some '/') : p.text = "/" := by
  obtain ⟨before, hbefore, hsplit⟩ := pieces_of_ended hend
  exact (h.root_of_empty hbefore hsplit).1

end Neat

theorem isAbsolute_normalize (p : Path) : p.normalize.isAbsolute = p.isAbsolute := by
  cases habs : p.isAbsolute with
  | true =>
    obtain ⟨names, heq⟩ := rooted_components habs
    rw [isAbsolute_iff, components_normalize, heq, List.reverse_append]
    rfl
  | false =>
    obtain ⟨names, ups, heq⟩ := climbing_components habs
    rw [← Bool.not_eq_true, isAbsolute_iff, components_normalize, heq]
    intro hroot
    have hmem := List.mem_of_mem_head? hroot
    simp at hmem

theorem canonical_normalize (p : Path) : p.normalize.Canonical where
  dotless := p.neat_normalize.dot_notMem_pieces
  single := p.neat_normalize.not_slashes
  unended := p.neat_normalize.eq_root_of_ended
  absolute habs := by
    rw [isAbsolute_normalize] at habs
    obtain ⟨names, heq⟩ := rooted_components habs
    refine ⟨names.reverse, ?_⟩
    rw [components_normalize, heq, List.reverse_append, List.map_reverse]
    rfl
  relative habs := by
    rw [isAbsolute_normalize] at habs
    obtain ⟨names, ups, heq⟩ := climbing_components habs
    refine ⟨ups, names.reverse, ?_⟩
    rw [components_normalize, heq, List.reverse_append, List.reverse_replicate, List.map_reverse]

theorem normalize_normalize (p : Path) : p.normalize.normalize = p.normalize := by
  rw [normalize, foldl_normalize]
  rfl

/-! ## Longer names -/

theorem Climbing.suffix {rest : List Component} (h : Climbing taken) (hrest : rest <:+ taken) : Climbing rest := by
  obtain ⟨names, ups, rfl⟩ := h
  obtain ⟨front, hfront⟩ := hrest
  rcases List.append_eq_append_iff.1 hfront.symm with ⟨more, -, hups⟩ | ⟨more, hnames, rfl⟩
  · refine ⟨[], rest.length, ?_⟩
    exact List.eq_replicate_of_mem fun c hc => List.eq_of_mem_replicate (hups ▸ List.mem_append_right more hc)
  · obtain ⟨before, after, -, -, rfl⟩ := List.map_eq_append_iff.1 hnames
    exact ⟨after, ups, rfl⟩

/-- A neat path in which each `..` stands in front of all names is its own normal form. -/
theorem Neat.normalize_eq (h : p.Neat) (hp : Climbing p.components.reverse) : p.normalize = p := by
  have hfold := hp.foldl_reverse
  rw [List.reverse_reverse] at hfold
  rw [normalize, hfold, List.reverse_reverse, h.ofComponents_components]

/-- A normal form is still one with more behind its last name. -/
theorem normalize_append (h : p.normalize = p) (habs : p.isAbsolute = false) {s : String} (hslash : '/' ∉ s.toList)
    (hlen : 2 < s.toList.length) : normalize ⟨p.text ++ s⟩ = ⟨p.text ++ s⟩ := by
  have hclimbing : Climbing p.components.reverse := by
    rw [← h, components_normalize, List.reverse_reverse]
    exact climbing_components habs
  obtain ⟨steps, hsteps, rfl | rfl⟩ := neat_of_normalize h
  · obtain ⟨init, name, hinit, hsteps', htext⟩ := exists_steps_append hsteps hslash hlen
    have heq : (⟨(ofComponents steps).text ++ s⟩ : Path) = ofComponents (init ++ [.name name]) := by
      rw [ofComponents_steps hsteps, ofComponents_steps hsteps', htext]
    rw [components_steps hsteps] at hclimbing
    rw [heq]
    refine Neat.normalize_eq ⟨_, hsteps', .inl rfl⟩ ?_
    -- the name is taken last, so it comes on top of what was taken before
    obtain ⟨names, ups, hbefore⟩ := hclimbing.suffix (List.reverse_suffix.2 hinit)
    rw [components_steps hsteps', List.reverse_concat, hbefore]
    exact ⟨name :: names, ups, rfl⟩
  · rw [← Bool.not_eq_true, isAbsolute_iff, components_root_steps hsteps] at habs
    exact absurd rfl habs

/-! ## Joining -/

/-- Normalizing before a join changes nothing but the way there. -/
theorem normalize_join (p q : Path) : (p.normalize.join q).normalize = (p.join q).normalize := by
  cases hq : q.isAbsolute with
  | true => rw [join, join, if_pos hq, if_pos hq]
  | false =>
    rw [normalize, foldl_join _ hq, foldl_normalize, ← foldl_join _ hq]
    rfl

/-- Every path has a canonical normal form, absolute as the path is. It is its own normal form, it is spelled in one way
only, and it is the same whether a path that is joined is normalized in one step or in two. -/
theorem normalize_canonical (p q : Path) :
    p.normalize.Canonical ∧ p.normalize.isAbsolute = p.isAbsolute ∧ p.normalize.normalize = p.normalize ∧
      (p.normalize.Same q.normalize ↔ p.normalize = q.normalize) ∧
      (p.join q).normalize = (p.normalize.join q).normalize :=
  ⟨p.canonical_normalize, p.isAbsolute_normalize, p.normalize_normalize,
    ⟨p.neat_normalize.eq_of_same q.neat_normalize, fun h => congrArg components h⟩, (p.normalize_join q).symm⟩

/-- Above the start a `..` stays, and below a root there is nothing above. -/
example : (normalize ⟨"./a//../.././b/"⟩).text = "../b" ∧ (normalize ⟨"/../a/.."⟩).text = "/" := by decide

end Bundler.Path
