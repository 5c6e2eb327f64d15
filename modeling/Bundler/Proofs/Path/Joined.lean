import Bundler.Proofs.Path.Normal
/-!
# Joined paths

Where a path is seen from another one, its text stands behind the other's with one slash between them (`text_join`), and
its components behind the other's components (`components_join`). Joining is associative (`join_assoc`). Steps that lead
on from a neat path make a neat path again (`Neat.join_steps`).
-/

namespace Bundler.Path

/-- There is no root behind the start of a path, so in a path that is not absolute there is none. -/
theorem root_notMem_components {p : Path} (h : p.isAbsolute = false) : .root ∉ p.components := by
  intro hroot
  obtain ⟨steps, hsteps, heq | heq | heq⟩ := p.exists_steps <;> rw [heq] at hroot
  · exact hsteps .root hroot
  · rw [← Bool.not_eq_true, isAbsolute_iff, heq] at h
    exact h rfl
  · rcases List.mem_cons.1 hroot with hroot | hroot
    · cases hroot
    · exact hsteps .root hroot

theorem eq_of_text {p q : Path} (h : p.text = q.text) : p = q := by
  cases p
  cases q
  exact congrArg Path.mk h

theorem isAbsolute_join {b q : Path} (hq : q.isAbsolute = false) : (b.join q).isAbsolute = b.isAbsolute := by
  unfold join
  rw [hq, if_neg Bool.false_ne_true]
  cases hb : b.text.toList with
  | nil =>
    rw [if_pos (.inl rfl)]
    rw [isAbsolute] at hq ⊢
    rw [String.toList_append, hb, List.nil_append, hq, isAbsolute, hb]
    rfl
  | cons a as => split <;> simp [isAbsolute, String.toList_append, hb]

theorem text_join {p q : Path} (hq : q.isAbsolute = false) : (p.join q).text =
    p.text ++ (if p.text = "" ∨ p.text.toList.getLast? = some '/' then "" else "/") ++ q.text := by
  by_cases hp : p.text = "" ∨ p.text.toList.getLast? = some '/' <;> simp [join, hq, hp]

/-- It does not matter from where a path is seen first. -/
theorem join_assoc (a b q : Path) : (a.join b).join q = a.join (b.join q) := by
  by_cases hq : q.isAbsolute = true
  · simp [join, hq]
  rw [Bool.not_eq_true] at hq
  by_cases hb : b.isAbsolute = true
  · have hbq : (b.join q).isAbsolute = true := (isAbsolute_join hq).trans hb
    have ha (p : Path) (hp : p.isAbsolute = true) : a.join p = p := if_pos hp
    rw [ha b hb, ha _ hbq]
  · rw [Bool.not_eq_true] at hb
    have hbq : (b.join q).isAbsolute = false := (isAbsolute_join hq).trans hb
    apply eq_of_text
    rw [text_join hq, text_join hbq, text_join hb, text_join hq]
    -- whether a slash is put between depends on the end of what stands before
    rcases List.eq_nil_or_concat b.text.toList with hnil | ⟨front, last, hlast⟩
    · have hempty : b.text = "" := String.toList_inj.1 hnil
      by_cases ha : a.text = "" ∨ a.text.toList.getLast? = some '/' <;> simp [ha, hempty]
    · rw [List.concat_eq_append] at hlast
      have hne : b.text ≠ "" := by
        intro hempty
        simp [hempty] at hlast
      by_cases ha : a.text = "" ∨ a.text.toList.getLast? = some '/' <;>
        simp [ha, hlast, hne, String.append_assoc, List.getLast?_cons]

theorem intercalate_append {ps qs : List String} (hp : ps ≠ []) (hq : qs ≠ []) :
    "/".intercalate (ps ++ qs) = "/".intercalate ps ++ "/" ++ "/".intercalate qs := by
  obtain ⟨q, rest, rfl⟩ := List.exists_cons_of_ne_nil hq
  induction ps with
  | nil => exact absurd rfl hp
  | cons first ps ih =>
    cases ps with
    | nil => simp [String.intercalate_cons_cons]
    | cons second ps =>
      rw [List.cons_append, List.cons_append, String.intercalate_cons_cons, ← List.cons_append,
        ih (List.cons_ne_nil _ _), String.intercalate_cons_cons]
      simp [String.append_assoc]

/-- Steps that are spelled out end in no slash. -/
theorem getLast?_steps {steps : List Component} (hne : steps ≠ []) (h : ∀ c ∈ steps, c.IsStep) :
    ("/".intercalate (steps.map Component.text)).toList.getLast? ≠ some '/' := by
  intro hend
  obtain ⟨front, hfront⟩ := List.getLast?_eq_some_iff.1 hend
  -- behind a slash at the end there would be an empty piece
  have hpieces := pieces_steps hne h
  rw [pieces, hfront, splitSlash_append_slash, List.map_append] at hpieces
  obtain ⟨c, hc, hempty⟩ := List.mem_map.1 (hpieces ▸ List.mem_append_right _ (List.mem_singleton_self _))
  have hstep := ofPiece_text (h c hc)
  rw [hempty] at hstep
  cases hstep

/-- Steps behind a neat path that is not absolute make a neat path. -/
theorem Neat.join_steps {p : Path} (hp : p.Neat) (habs : p.isAbsolute = false) {steps : List Component}
    (hne : steps ≠ []) (h : ∀ c ∈ steps, c.IsStep) : (p.join (ofComponents steps)).Neat := by
  have hrelative : (ofComponents steps).isAbsolute = false := by
    rw [← Bool.not_eq_true, isAbsolute_iff, components_steps h]
    intro hroot
    exact (h .root (List.mem_of_mem_head? hroot)).elim
  obtain ⟨front, hfront, rfl | rfl⟩ := hp
  · refine ⟨front ++ steps, fun c hc => (List.mem_append.1 hc).elim (hfront c) (h c), .inl (eq_of_text ?_)⟩
    rw [text_join hrelative, ofComponents_steps hfront, ofComponents_steps h,
      ofComponents_steps fun c hc => (List.mem_append.1 hc).elim (hfront c) (h c), List.map_append]
    by_cases hnil : front = []
    · subst hnil
      simp
    · rw [intercalate_append (by simpa using hnil) (by simpa using hne), if_neg]
      rintro (hempty | hend)
      · have hcomponents := components_steps hfront
        rw [ofComponents_steps hfront, congrArg Path.mk hempty] at hcomponents
        exact hnil hcomponents.symm
      · exact getLast?_steps hnil hfront hend
  · rw [← Bool.not_eq_true, isAbsolute_iff, components_root_steps hfront] at habs
    exact absurd rfl habs

/-- The pieces of a joined path; a slash at the end of the first one makes no piece. -/
theorem pieces_join {b q : Path} (hq : q.isAbsolute = false) (hb : b.text ≠ "") :
    ∃ ps, ps ≠ [] ∧ (b.join q).pieces = ps ++ q.pieces ∧ (b.pieces = ps ∨ b.pieces = ps ++ [""]) := by
  have hnonempty : b.text.toList ≠ [] := fun h => hb (String.toList_inj.1 h)
  unfold join
  rw [hq, if_neg Bool.false_ne_true]
  split
  · next hend =>
    obtain ⟨front, hfront⟩ := List.getLast?_eq_some_iff.1 (hend.resolve_left hnonempty)
    refine ⟨(splitSlash front).map String.ofList, by simpa using splitSlash_ne_nil front, ?_, .inr ?_⟩
    · rw [pieces, String.toList_append, hfront, List.append_assoc, List.singleton_append, splitSlash_append_slash,
        List.map_append]
      rfl
    · rw [pieces, hfront, splitSlash_append_slash, List.map_append]
      rfl
  · refine ⟨b.pieces, pieces_ne_nil b, ?_, .inl rfl⟩
    rw [pieces, String.toList_append, String.toList_append, List.append_assoc]
    show (splitSlash (b.text.toList ++ '/' :: q.text.toList)).map String.ofList = _
    rw [splitSlash_append_slash, List.map_append]
    rfl

/-- Paths that begin with the same pieces begin with the same components. -/
theorem components_of_pieces {p q : Path} {ps more more' : List String} (hne : ps ≠ []) (hp : p.pieces = ps ++ more)
    (hq : q.pieces = ps ++ more') (habs : q.isAbsolute = p.isAbsolute) :
    ∃ cs, p.components = cs ++ more.filterMap Component.ofPiece ∧
      q.components = cs ++ more'.filterMap Component.ofPiece := by
  obtain ⟨first, rest, rfl⟩ := List.exists_cons_of_ne_nil hne
  unfold components
  rw [hp, hq, habs, List.cons_append, List.cons_append]
  dsimp only
  rw [List.filterMap_append, List.filterMap_append]
  split
  · exact ⟨.root :: rest.filterMap Component.ofPiece, rfl, rfl⟩
  · split
    · exact ⟨.here :: rest.filterMap Component.ofPiece, rfl, rfl⟩
    · exact ⟨(Component.ofPiece first).toList ++ rest.filterMap Component.ofPiece, by simp, by simp⟩

/-- Behind a path that is not empty a joined one goes on with the components of its pieces. -/
theorem components_join {p q : Path} (hq : q.isAbsolute = false) (hp : p.text ≠ "") :
    (p.join q).components = p.components ++ q.pieces.filterMap Component.ofPiece := by
  obtain ⟨ps, hps, hjoin, hends⟩ := pieces_join hq hp
  -- a slash at the end is no component
  obtain ⟨more, hmore, hnone⟩ : ∃ more, p.pieces = ps ++ more ∧ more.filterMap Component.ofPiece = [] := by
    rcases hends with heq | heq
    · exact ⟨[], by simp [heq], rfl⟩
    · exact ⟨[""], heq, rfl⟩
  obtain ⟨cs, hp', hjoin'⟩ := components_of_pieces hps hmore hjoin (isAbsolute_join hq)
  rw [hjoin', hp', hnone, List.append_nil]

theorem components_normalize (p : Path) : p.normalize.components = (p.components.foldl descend []).reverse := by
  obtain ⟨steps, hsteps, heq | heq⟩ := stacked_foldl ⟨[], by simp, .inl rfl⟩ fun c hc => mem_components (p := p) hc
  · rw [normalize, heq, components_steps (by simpa using hsteps)]
  · rw [normalize, heq, List.reverse_append]
    exact components_root_steps (by simpa using hsteps)

end Bundler.Path
