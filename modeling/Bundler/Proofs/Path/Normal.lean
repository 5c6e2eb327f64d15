import Bundler.Proofs.Path
/-!
# Paths in normal form

A path is `Neat` when it spells names and `..` with one slash between them, behind a root perhaps. Then
it has the components that it spells (`components_ofComponents`), so a path has one neat spelling
(`Neat.eq_of_same`). Normalizing makes a path neat (`neat_normalize`), and it stays so when a text is
added to its last name (`Neat.append`).
-/

namespace Bundler.Path

/-- A component that stands for itself wherever it is spelled. -/
def Component.IsStep : Component → Prop
  | .up => True
  | .name s => '/' ∉ s.toList ∧ s ≠ "" ∧ s ≠ "." ∧ s ≠ ".."
  | _ => False

/-- A path without a dot or a slash too many. -/
def Neat (p : Path) : Prop :=
  ∃ steps : List Component, (∀ c ∈ steps, c.IsStep) ∧ (p = ofComponents steps ∨ p = ofComponents (.root :: steps))

/-! ## Pieces -/

theorem splitSlash_append_slash (cs ds : List Char) :
    splitSlash (cs ++ '/' :: ds) = splitSlash cs ++ splitSlash ds := by
  induction cs with
  | nil =>
    obtain ⟨piece, pieces, hsplit⟩ := List.exists_cons_of_ne_nil (splitSlash_ne_nil ds)
    rw [List.nil_append, splitSlash_cons hsplit, if_pos rfl, hsplit]
    rfl
  | cons c cs ih =>
    obtain ⟨piece, pieces, hsplit⟩ := List.exists_cons_of_ne_nil (splitSlash_ne_nil cs)
    rw [hsplit, List.cons_append] at ih
    rw [List.cons_append, splitSlash_cons ih, splitSlash_cons hsplit]
    split <;> rfl

theorem pieces_ne_nil (p : Path) : p.pieces ≠ [] := by
  rw [pieces, Ne, List.map_eq_nil_iff]
  exact splitSlash_ne_nil _

/-- There is no slash between slashes. -/
theorem slash_notMem_of_mem_splitSlash {cs piece : List Char} (h : piece ∈ splitSlash cs) : '/' ∉ piece := by
  induction cs generalizing piece with
  | nil =>
    rw [splitSlash, List.mem_singleton] at h
    rw [h]
    exact List.not_mem_nil
  | cons c cs ih =>
    obtain ⟨first, rest, hsplit⟩ := List.exists_cons_of_ne_nil (splitSlash_ne_nil cs)
    rw [hsplit] at ih
    rw [splitSlash_cons hsplit] at h
    split at h
    · rcases List.mem_cons.1 h with rfl | h
      · exact List.not_mem_nil
      · exact ih h
    · next hc =>
      rcases List.mem_cons.1 h with rfl | h
      · rw [List.mem_cons, not_or]
        exact ⟨Ne.symm hc, ih List.mem_cons_self⟩
      · exact ih (List.mem_cons_of_mem _ h)

theorem slash_notMem_of_mem_pieces {p : Path} {piece : String} (h : piece ∈ p.pieces) : '/' ∉ piece.toList := by
  obtain ⟨cs, hcs, rfl⟩ := List.mem_map.1 h
  rw [String.toList_ofList]
  exact slash_notMem_of_mem_splitSlash hcs

theorem isStep_of_ofPiece {piece : String} {c : Component} (hslash : '/' ∉ piece.toList)
    (h : Component.ofPiece piece = some c) : c.IsStep := by
  cases c with
  | name s =>
    obtain ⟨rfl, hname⟩ := ofPiece_eq_name.1 h
    exact ⟨hslash, hname⟩
  | up => trivial
  | _ =>
    unfold Component.ofPiece at h
    split at h
    · cases h
    · split at h <;> cases h

theorem ofPiece_text {c : Component} (h : c.IsStep) : Component.ofPiece c.text = some c := by
  cases c with
  | up => rfl
  | name s => exact ofPiece_eq_name.2 ⟨rfl, h.2⟩
  | _ => exact h.elim

theorem slash_notMem_text {c : Component} (h : c.IsStep) : '/' ∉ c.text.toList := by
  cases c with
  | up => decide
  | name s => exact h.1
  | _ => exact h.elim

/-- What a path consists of: steps, behind a root or a dot perhaps. -/
theorem exists_steps (p : Path) :
    ∃ steps : List Component, (∀ c ∈ steps, c.IsStep) ∧
      (p.components = steps ∨ p.components = .root :: steps ∨ p.components = .here :: steps) := by
  have inner {rest : List String} (hrest : ∀ piece ∈ rest, '/' ∉ piece.toList) :
      ∀ c ∈ rest.filterMap Component.ofPiece, c.IsStep := by
    intro c hc
    obtain ⟨piece, hpiece, hof⟩ := List.mem_filterMap.1 hc
    exact isStep_of_ofPiece (hrest piece hpiece) hof
  have hslash : ∀ piece ∈ p.pieces, '/' ∉ piece.toList := fun piece => slash_notMem_of_mem_pieces
  unfold components
  cases hpieces : p.pieces with
  | nil => exact ⟨[], by simp, .inl rfl⟩
  | cons first rest =>
    rw [hpieces, List.forall_mem_cons] at hslash
    dsimp only
    split
    · exact ⟨_, inner hslash.2, .inr (.inl rfl)⟩
    · split
      · exact ⟨_, inner hslash.2, .inr (.inr rfl)⟩
      · refine ⟨_, ?_, .inl rfl⟩
        intro c hc
        rcases List.mem_append.1 hc with hc | hc
        · exact isStep_of_ofPiece hslash.1 (Option.mem_toList.1 hc)
        · exact inner hslash.2 c hc

/-- The names of a path have no slash. -/
theorem slash_notMem_of_name {p : Path} {s : String} (h : .name s ∈ p.components) : '/' ∉ s.toList :=
  slash_notMem_of_mem_pieces (name_mem_components.1 h).1

/-- A path is absolute exactly when its components begin with the root. -/
theorem isAbsolute_iff {p : Path} : p.isAbsolute = true ↔ p.components.head? = some .root := by
  have noRoot (piece : String) : Component.ofPiece piece ≠ some .root := by
    unfold Component.ofPiece
    split
    · nofun
    · split <;> nofun
  obtain ⟨first, rest, hpieces⟩ := List.exists_cons_of_ne_nil (pieces_ne_nil p)
  unfold components
  rw [hpieces]
  dsimp only
  split
  · next habs => simp [habs]
  · next habs =>
    refine iff_of_false habs fun hroot => ?_
    have hmem := List.mem_of_head? hroot
    split at hmem
    · rw [List.mem_cons, List.mem_filterMap] at hmem
      obtain h | ⟨piece, -, h⟩ := hmem
      · cases h
      · exact noRoot piece h
    · rw [List.mem_append, Option.mem_toList, List.mem_filterMap] at hmem
      obtain h | ⟨piece, -, h⟩ := hmem
      · exact noRoot first h
      · exact noRoot piece h

theorem isAbsolute_of_same {p q : Path} (h : p.Same q) : p.isAbsolute = q.isAbsolute := by
  rw [Bool.eq_iff_iff, isAbsolute_iff, isAbsolute_iff, h]

/-! ## Spelling out -/

theorem splitSlash_intercalate {ps : List (List Char)} (hne : ps ≠ []) (h : ∀ piece ∈ ps, '/' ∉ piece) :
    splitSlash (['/'].intercalate ps) = ps := by
  induction ps with
  | nil => exact absurd rfl hne
  | cons first rest ih =>
    rw [List.forall_mem_cons] at h
    cases rest with
    | nil =>
      rw [List.intercalate_singleton]
      exact splitSlash_of_notMem h.1
    | cons second rest =>
      rw [List.intercalate_cons_cons, List.append_assoc, List.singleton_append, splitSlash_append_slash,
        splitSlash_of_notMem h.1, ih (List.cons_ne_nil _ _) h.2]
      rfl

/-- A text is its pieces with slashes between them. -/
theorem intercalate_splitSlash (cs : List Char) : ['/'].intercalate (splitSlash cs) = cs := by
  induction cs with
  | nil => rfl
  | cons c cs ih =>
    obtain ⟨piece, pieces, hsplit⟩ := List.exists_cons_of_ne_nil (splitSlash_ne_nil cs)
    rw [hsplit] at ih
    rw [splitSlash_cons hsplit]
    split
    · next hc => rw [List.intercalate_cons_cons, ih, hc]; rfl
    · rw [← ih]
      cases pieces with
      | nil => rw [List.intercalate_singleton, List.intercalate_singleton]
      | cons second rest => rw [List.intercalate_cons_cons, List.intercalate_cons_cons]; rfl

/-- Two paths of the same pieces are one. -/
theorem eq_of_pieces {p q : Path} (h : p.pieces = q.pieces) : p = q := by
  have hsplit : splitSlash p.text.toList = splitSlash q.text.toList :=
    (List.map_inj_right fun _ _ => String.ofList_inj.1).1 h
  have htext : p.text.toList = q.text.toList := by
    rw [← intercalate_splitSlash p.text.toList, hsplit, intercalate_splitSlash]
  cases p
  cases q
  exact congrArg mk (String.toList_inj.1 htext)

theorem pieces_intercalate {ps : List String} (hne : ps ≠ []) (h : ∀ piece ∈ ps, '/' ∉ piece.toList) :
    pieces ⟨"/".intercalate ps⟩ = ps := by
  have hslash : ∀ piece ∈ ps.map String.toList, '/' ∉ piece := by simpa using h
  have hsplit := splitSlash_intercalate (by simpa using hne) hslash
  rw [pieces, String.toList_intercalate]
  show (splitSlash (['/'].intercalate (ps.map String.toList))).map String.ofList = ps
  rw [hsplit, List.map_map]
  exact (List.map_congr_left fun s _ => String.ofList_toList).trans (List.map_id ps)

theorem pieces_steps {steps : List Component} (hne : steps ≠ []) (h : ∀ c ∈ steps, c.IsStep) :
    pieces ⟨"/".intercalate (steps.map Component.text)⟩ = steps.map Component.text := by
  refine pieces_intercalate (by simpa using hne) fun piece hpiece => ?_
  obtain ⟨c, hc, rfl⟩ := List.mem_map.1 hpiece
  exact slash_notMem_text (h c hc)

/-- Steps that are spelled out are read back. -/
theorem filterMap_ofPiece_text {steps : List Component} (h : ∀ c ∈ steps, c.IsStep) :
    (steps.map Component.text).filterMap Component.ofPiece = steps := by
  induction steps with
  | nil => rfl
  | cons first rest ih =>
    rw [List.forall_mem_cons] at h
    rw [List.map_cons, List.filterMap_cons_some (ofPiece_text h.1), ih h.2]

theorem filterMap_pieces_steps {steps : List Component} (h : ∀ c ∈ steps, c.IsStep) :
    (pieces ⟨"/".intercalate (steps.map Component.text)⟩).filterMap Component.ofPiece = steps := by
  cases steps with
  | nil => rfl
  | cons first rest => rw [pieces_steps (List.cons_ne_nil _ _) h, filterMap_ofPiece_text h]

theorem ofComponents_steps {steps : List Component} (h : ∀ c ∈ steps, c.IsStep) :
    ofComponents steps = ⟨"/".intercalate (steps.map Component.text)⟩ := by
  unfold ofComponents
  split
  · exact (h .root List.mem_cons_self).elim
  · rfl

/-- A neat path has the components that it spells. -/
theorem components_steps {steps : List Component} (h : ∀ c ∈ steps, c.IsStep) :
    (ofComponents steps).components = steps := by
  rw [ofComponents_steps h]
  cases steps with
  | nil => rfl
  | cons first rest =>
    have hpieces := pieces_steps (List.cons_ne_nil _ _) h
    have hfirst := ofPiece_text (h first List.mem_cons_self)
    have hname : first.text ≠ "" ∧ first.text ≠ "." := by
      refine ⟨fun he => ?_, fun he => ?_⟩ <;> rw [he] at hfirst <;> cases hfirst
    have habs : isAbsolute ⟨"/".intercalate ((first :: rest).map Component.text)⟩ = false := by
      rw [← Bool.not_eq_true]
      intro habs
      obtain ⟨others, hothers⟩ := pieces_of_isAbsolute habs
      rw [hpieces, List.map_cons, List.cons.injEq] at hothers
      exact hname.1 hothers.1
    rw [components, hpieces, List.map_cons]
    dsimp only
    rw [← List.map_cons, habs, if_neg Bool.false_ne_true, if_neg hname.2, hfirst,
      filterMap_ofPiece_text fun c hc => h c (List.mem_cons_of_mem _ hc)]
    rfl

theorem components_root_steps {steps : List Component} (h : ∀ c ∈ steps, c.IsStep) :
    (ofComponents (.root :: steps)).components = .root :: steps := by
  have hpieces : pieces ⟨"/" ++ "/".intercalate (steps.map Component.text)⟩ =
      "" :: pieces ⟨"/".intercalate (steps.map Component.text)⟩ := by
    rw [pieces, pieces, String.toList_append]
    exact congrArg (List.map String.ofList) (splitSlash_append_slash [] _)
  have habs : isAbsolute ⟨"/" ++ "/".intercalate (steps.map Component.text)⟩ = true := by
    rw [isAbsolute, String.toList_append]
    rfl
  rw [ofComponents, components, hpieces]
  dsimp only
  rw [habs, if_pos rfl, filterMap_pieces_steps h]

/-! ## One neat spelling -/

namespace Neat

variable {p q : Path}

theorem ofComponents_components (h : p.Neat) : ofComponents p.components = p := by
  obtain ⟨steps, hsteps, rfl | rfl⟩ := h
  · rw [components_steps hsteps]
  · rw [components_root_steps hsteps]

/-- Neat spellings of one path are the same text. -/
theorem eq_of_same (hp : p.Neat) (hq : q.Neat) (h : p.Same q) : p = q := by
  rw [← hp.ofComponents_components, ← hq.ofComponents_components, h]

end Neat

/-! ## Normalizing -/

/-- Steps on top of a root perhaps, the last one first. -/
def Stacked (taken : List Component) : Prop :=
  ∃ steps : List Component, (∀ c ∈ steps, c.IsStep) ∧ (taken = steps ∨ taken = steps ++ [.root])

theorem Stacked.cons {taken : List Component} {c : Component} (h : Stacked taken) (hc : c.IsStep) :
    Stacked (c :: taken) := by
  obtain ⟨steps, hsteps, rfl | rfl⟩ := h
  · exact ⟨c :: taken, List.forall_mem_cons.2 ⟨hc, hsteps⟩, .inl rfl⟩
  · exact ⟨c :: steps, List.forall_mem_cons.2 ⟨hc, hsteps⟩, .inr rfl⟩

theorem Stacked.tail {taken : List Component} {s : String} (h : Stacked (.name s :: taken)) : Stacked taken := by
  obtain ⟨steps, hsteps, heq | heq⟩ := h
  · subst heq
    exact ⟨taken, (List.forall_mem_cons.1 hsteps).2, .inl rfl⟩
  · cases steps with
    | nil => cases heq
    | cons first rest =>
      cases heq
      exact ⟨rest, (List.forall_mem_cons.1 hsteps).2, .inr rfl⟩

theorem stacked_descend {taken : List Component} {c : Component} (ht : Stacked taken)
    (hc : c.IsStep ∨ c = .root ∨ c = .here) : Stacked (descend taken c) := by
  unfold descend
  split
  · exact ⟨[], by simp, .inr rfl⟩
  · exact ht
  · exact ht.tail
  · exact ht
  · exact ht.cons trivial
  · refine ht.cons (hc.resolve_right ?_)
    rintro (h | h) <;> cases h

theorem stacked_foldl {cs taken : List Component} (ht : Stacked taken)
    (hcs : ∀ c ∈ cs, c.IsStep ∨ c = .root ∨ c = .here) : Stacked (cs.foldl descend taken) := by
  induction cs generalizing taken with
  | nil => exact ht
  | cons c cs ih =>
    rw [List.forall_mem_cons] at hcs
    exact ih (stacked_descend ht hcs.1) hcs.2

theorem mem_components {p : Path} {c : Component} (h : c ∈ p.components) : c.IsStep ∨ c = .root ∨ c = .here := by
  obtain ⟨steps, hsteps, heq | heq | heq⟩ := p.exists_steps <;> rw [heq] at h
  · exact .inl (hsteps c h)
  · exact (List.mem_cons.1 h).elim (fun h => .inr (.inl h)) fun h => .inl (hsteps c h)
  · exact (List.mem_cons.1 h).elim (fun h => .inr (.inr h)) fun h => .inl (hsteps c h)

theorem neat_normalize (p : Path) : p.normalize.Neat := by
  have hstart : Stacked [] := ⟨[], by simp, .inl rfl⟩
  obtain ⟨steps, hsteps, heq | heq⟩ := stacked_foldl hstart fun c hc => mem_components (p := p) hc
  · refine ⟨steps.reverse, by simpa using hsteps, .inl ?_⟩
    rw [normalize, heq]
  · refine ⟨steps.reverse, by simpa using hsteps, .inr ?_⟩
    rw [normalize, heq, List.reverse_append]
    rfl

/-- A path that normalizing leaves as it is. -/
theorem neat_of_normalize {p : Path} (h : p.normalize = p) : p.Neat := h ▸ p.neat_normalize

/-! ## Longer names -/

theorem intercalate_append_last (ps : List String) (last s : String) :
    "/".intercalate (ps ++ [last ++ s]) = "/".intercalate (ps ++ [last]) ++ s := by
  induction ps with
  | nil => simp
  | cons first rest ih =>
    cases rest with
    | nil => simp [String.append_assoc]
    | cons second rest =>
      rw [List.cons_append, List.cons_append, String.intercalate_cons_cons, ← List.cons_append, ih]
      simp [String.append_assoc]

/-- With enough behind it, a piece is a name. -/
theorem isStep_append {piece s : String} (hpiece : '/' ∉ piece.toList) (hslash : '/' ∉ s.toList)
    (hlen : 2 < s.toList.length) : (Component.name (piece ++ s)).IsStep := by
  have longer : 2 < (piece ++ s).toList.length := by
    rw [String.toList_append, List.length_append]
    omega
  refine ⟨?_, ?_, ?_, ?_⟩
  · rw [String.toList_append, List.mem_append, not_or]
    exact ⟨hpiece, hslash⟩
  all_goals
    intro heq
    rw [heq] at longer
    revert longer
    decide

/-- With more behind its last step, what is spelled ends with a name instead. -/
theorem exists_steps_append {steps : List Component} (h : ∀ c ∈ steps, c.IsStep) {s : String}
    (hslash : '/' ∉ s.toList) (hlen : 2 < s.toList.length) :
    ∃ (init : List Component) (name : String), init <+: steps ∧ (∀ c ∈ init ++ [Component.name name], c.IsStep) ∧
      "/".intercalate ((init ++ [Component.name name]).map Component.text) =
        "/".intercalate (steps.map Component.text) ++ s := by
  rcases List.eq_nil_or_concat steps with rfl | ⟨init, last, rfl⟩
  · refine ⟨[], "" ++ s, List.nil_prefix, ?_, by simp [Component.text]⟩
    simpa using isStep_append (by decide : '/' ∉ "".toList) hslash hlen
  · rw [List.concat_eq_append] at h ⊢
    refine ⟨init, last.text ++ s, List.prefix_append _ _, ?_, ?_⟩
    · intro c hc
      rcases List.mem_append.1 hc with hc | hc
      · exact h c (List.mem_append_left _ hc)
      · rw [List.mem_singleton.1 hc]
        exact isStep_append (slash_notMem_text (h last (List.mem_append_right _ List.mem_cons_self))) hslash hlen
    · rw [List.map_append, List.map_append]
      exact intercalate_append_last _ _ _

theorem Neat.append {p : Path} (h : p.Neat) {s : String} (hslash : '/' ∉ s.toList) (hlen : 2 < s.toList.length) :
    Neat ⟨p.text ++ s⟩ := by
  obtain ⟨steps, hsteps, heq⟩ := h
  obtain ⟨init, name, -, hsteps', htext⟩ := exists_steps_append hsteps hslash hlen
  refine ⟨_, hsteps', heq.imp (fun heq => ?_) fun heq => ?_⟩
  · rw [heq, ofComponents_steps hsteps, ofComponents_steps hsteps', htext]
  · rw [heq, ofComponents, ofComponents, htext, String.append_assoc]

end Bundler.Path
