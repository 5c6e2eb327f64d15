import Bundler.Path
/-!
# Texts of paths

A joined path ends in the text of its second part (`join_text`), and what is added behind a path
without a slash becomes part of its last piece (`pieces_append`). Paths that compare equal are
spellings of one path (`compare_eq_iff`), which differ in slashes and dots only (`mem_text_of_same`). A
name on its own is the stem of its path, unless it has a dot (`stem?_name`).
-/

namespace Bundler.Path

/-- Seen from anywhere, a path keeps its text at the end. -/
theorem join_text (p q : Path) : ∃ front, (p.join q).text = front ++ q.text := by
  unfold join
  split
  · exact ⟨"", by simp⟩
  · split
    · exact ⟨p.text, rfl⟩
    · exact ⟨p.text ++ "/", rfl⟩

theorem isAbsolute_append (q : Path) {s : String} (hs : s.toList.head? ≠ some '/') :
    isAbsolute ⟨q.text ++ s⟩ = q.isAbsolute := by
  simp only [isAbsolute, String.toList_append]
  cases q.text.toList with
  | nil =>
    rw [List.nil_append, List.head?_nil]
    exact (beq_eq_false_iff_ne.2 hs).trans rfl
  | cons c cs => rfl

/-- A text added behind a path does not matter to the way it is seen from elsewhere. -/
theorem join_append (p q : Path) {s : String} (hs : s.toList.head? ≠ some '/') :
    (p.join ⟨q.text ++ s⟩).text = (p.join q).text ++ s := by
  unfold join
  rw [isAbsolute_append q hs]
  split
  · rfl
  · split
    · exact String.append_assoc.symm
    · exact String.append_assoc.symm

theorem splitSlash_ne_nil (cs : List Char) : splitSlash cs ≠ [] := by
  cases cs with
  | nil => simp [splitSlash]
  | cons c cs =>
    unfold splitSlash
    split
    · simp
    · split <;> simp

theorem splitSlash_of_notMem {cs : List Char} (h : '/' ∉ cs) : splitSlash cs = [cs] := by
  induction cs with
  | nil => rfl
  | cons c cs ih =>
    rw [List.mem_cons, not_or] at h
    rw [splitSlash, ih h.2]
    exact if_neg (Ne.symm h.1)

theorem splitSlash_cons {c : Char} {cs piece : List Char} {pieces : List (List Char)}
    (h : splitSlash cs = piece :: pieces) :
    splitSlash (c :: cs) = if c = '/' then [] :: piece :: pieces else (c :: piece) :: pieces := by
  rw [splitSlash, h]

/-- What is added without a slash becomes part of the last piece. -/
theorem splitSlash_append (cs : List Char) :
    ∃ init last, splitSlash cs = init ++ [last] ∧
      ∀ more, '/' ∉ more → splitSlash (cs ++ more) = init ++ [last ++ more] := by
  induction cs with
  | nil => exact ⟨[], [], rfl, fun more h => splitSlash_of_notMem h⟩
  | cons c cs ih =>
    obtain ⟨init, last, hsplit, hmore⟩ := ih
    by_cases hc : c = '/'
    · refine ⟨[] :: init, last, ?_, fun more h => ?_⟩
      · cases init <;> rw [splitSlash_cons hsplit, if_pos hc] <;> rfl
      · cases init <;> rw [List.cons_append, splitSlash_cons (hmore more h), if_pos hc] <;> rfl
    · cases init with
      | nil =>
        refine ⟨[], c :: last, ?_, fun more h => ?_⟩
        · rw [splitSlash_cons hsplit, if_neg hc]
          rfl
        · rw [List.cons_append, splitSlash_cons (hmore more h), if_neg hc]
          rfl
      | cons first init =>
        refine ⟨(c :: first) :: init, last, ?_, fun more h => ?_⟩
        · rw [splitSlash_cons hsplit, if_neg hc]
          rfl
        · rw [List.cons_append, splitSlash_cons (hmore more h), if_neg hc]
          rfl

theorem pieces_append (p : Path) :
    ∃ init last, p.pieces = init ++ [last] ∧
      ∀ s : String, '/' ∉ s.toList → pieces ⟨p.text ++ s⟩ = init ++ [last ++ s] := by
  obtain ⟨init, last, hsplit, hmore⟩ := splitSlash_append p.text.toList
  refine ⟨init.map String.ofList, String.ofList last, ?_, fun s hs => ?_⟩
  · rw [pieces, hsplit, List.map_append, List.map_singleton]
  · rw [pieces, String.toList_append, hmore _ hs, List.map_append, List.map_singleton, String.ofList_append,
      String.ofList_toList]

/-! ## Names -/

theorem mem_splitSlash {c : Char} (hc : c ≠ '/') (cs : List Char) : c ∈ cs ↔ ∃ piece ∈ splitSlash cs, c ∈ piece := by
  induction cs with
  | nil => simp [splitSlash]
  | cons a cs ih =>
    rw [List.mem_cons, ih]
    obtain ⟨piece, pieces, hsplit⟩ := List.exists_cons_of_ne_nil (splitSlash_ne_nil cs)
    rw [splitSlash_cons hsplit, hsplit]
    by_cases ha : a = '/'
    · simp [ha, hc]
    · simp [ha, or_assoc]

theorem pieces_of_isAbsolute {p : Path} (h : p.isAbsolute) : ∃ rest, p.pieces = "" :: rest := by
  obtain ⟨cs, hcs⟩ : ∃ cs, p.text.toList = '/' :: cs := by
    rw [isAbsolute, beq_iff_eq] at h
    exact ⟨_, (List.head?_eq_some_iff.1 h).choose_spec⟩
  obtain ⟨piece, pieces, hsplit⟩ := List.exists_cons_of_ne_nil (splitSlash_ne_nil cs)
  refine ⟨(piece :: pieces).map String.ofList, ?_⟩
  rw [Path.pieces, hcs, splitSlash_cons hsplit]
  rfl

theorem ofPiece_eq_name {piece s : String} :
    Component.ofPiece piece = some (.name s) ↔ piece = s ∧ s ≠ "" ∧ s ≠ "." ∧ s ≠ ".." := by
  unfold Component.ofPiece
  constructor
  · intro h
    split at h
    · cases h
    · split at h
      · cases h
      · next hne hup =>
        cases h
        exact ⟨rfl, fun h => hne (.inl h), fun h => hne (.inr h), hup⟩
  · rintro ⟨rfl, hempty, hhere, hup⟩
    simp [hempty, hhere, hup]

/-- The names that a path consists of are those of its pieces that are names. -/
theorem name_mem_components {p : Path} {s : String} :
    .name s ∈ p.components ↔ s ∈ p.pieces ∧ s ≠ "" ∧ s ≠ "." ∧ s ≠ ".." := by
  have inner (rest : List String) :
      .name s ∈ rest.filterMap Component.ofPiece ↔ s ∈ rest ∧ s ≠ "" ∧ s ≠ "." ∧ s ≠ ".." := by
    simp only [List.mem_filterMap, ofPiece_eq_name]
    constructor
    · rintro ⟨piece, hmem, rfl, hname⟩
      exact ⟨hmem, hname⟩
    · rintro ⟨hmem, hname⟩
      exact ⟨s, hmem, rfl, hname⟩
  unfold components
  cases hpieces : p.pieces with
  | nil => simp
  | cons first rest =>
    dsimp only
    split
    · next habs =>
      obtain ⟨rest', hrest⟩ := pieces_of_isAbsolute habs
      cases hpieces.symm.trans hrest
      rw [List.mem_cons, inner, List.mem_cons]
      constructor
      · rintro (h | h)
        · cases h
        · exact ⟨.inr h.1, h.2⟩
      · rintro ⟨rfl | h, hname⟩
        · exact absurd rfl hname.1
        · exact .inr ⟨h, hname⟩
    · split
      · next hhere =>
        rw [List.mem_cons, inner, List.mem_cons]
        constructor
        · rintro (h | h)
          · cases h
          · exact ⟨.inr h.1, h.2⟩
        · rintro ⟨rfl | h, hname⟩
          · exact absurd hhere hname.2.1
          · exact .inr ⟨h, hname⟩
      · rw [List.mem_append, inner, Option.mem_toList, ofPiece_eq_name, List.mem_cons, ← or_and_right,
          eq_comm (a := first)]

/-- What a path spells but for slashes and dots, its names spell. -/
theorem mem_text_iff {p : Path} {c : Char} (hslash : c ≠ '/') (hdot : c ≠ '.') :
    c ∈ p.text.toList ↔ ∃ s, .name s ∈ p.components ∧ c ∈ s.toList := by
  have hpiece {piece : List Char} (hc : c ∈ piece) : String.ofList piece ≠ "" ∧ String.ofList piece ≠ "." ∧
      String.ofList piece ≠ ".." := by
    refine ⟨fun h => ?_, fun h => ?_, fun h => ?_⟩ <;>
    · rw [← String.toList_ofList (l := piece), h] at hc
      simp [hdot] at hc
  rw [mem_splitSlash hslash]
  simp only [name_mem_components, pieces, List.mem_map]
  constructor
  · rintro ⟨piece, hmem, hc⟩
    exact ⟨String.ofList piece, ⟨⟨piece, hmem, rfl⟩, hpiece hc⟩, by rwa [String.toList_ofList]⟩
  · rintro ⟨_, ⟨⟨piece, hmem, rfl⟩, -⟩, hc⟩
    exact ⟨piece, hmem, by rwa [String.toList_ofList] at hc⟩

/-- Spellings of one path differ in slashes and dots only. -/
theorem mem_text_of_same {p q : Path} {c : Char} (hslash : c ≠ '/') (hdot : c ≠ '.') (h : p.Same q) :
    c ∈ p.text.toList ↔ c ∈ q.text.toList := by
  rw [mem_text_iff hslash hdot, mem_text_iff hslash hdot, h]

theorem isAbsolute_of_notMem {p : Path} (h : '/' ∉ p.text.toList) : p.isAbsolute = false := by
  rw [isAbsolute, beq_eq_false_iff_ne]
  exact fun hhead => h (List.mem_of_head? hhead)

theorem pieces_of_notMem {p : Path} (h : '/' ∉ p.text.toList) : p.pieces = [p.text] := by
  rw [pieces, splitSlash_of_notMem h, List.map_singleton, String.ofList_toList]

/-- A name is one component. -/
theorem components_name {p : Path} (hslash : '/' ∉ p.text.toList) (hempty : p.text ≠ "") (hhere : p.text ≠ ".")
    (hup : p.text ≠ "..") : p.components = [.name p.text] := by
  simp [components, pieces_of_notMem hslash, isAbsolute_of_notMem hslash, Component.ofPiece, hempty, hhere, hup]

theorem splitExtension_of_notMem {name : String} (h : '.' ∉ name.toList) : splitExtension name = (name, none) := by
  have hcut : name.toList.reverse.dropWhile (· ≠ '.') = [] := by
    rw [← List.append_nil name.toList.reverse, List.dropWhile_append_of_pos, List.dropWhile_nil]
    intro c hc
    rw [decide_eq_true_iff]
    rintro rfl
    exact h (List.mem_reverse.1 hc)
  unfold splitExtension
  dsimp only
  rw [hcut]

theorem stem?_name {p : Path} (hslash : '/' ∉ p.text.toList) (hdot : '.' ∉ p.text.toList) (hempty : p.text ≠ "") :
    p.stem? = some p.text := by
  have hhere : p.text ≠ "." := fun h => hdot (by rw [h]; decide)
  have hup : p.text ≠ ".." := fun h => hdot (by rw [h]; decide)
  rw [stem?, fileName?, components_name hslash hempty hhere hup]
  simp [splitExtension_of_notMem hdot]

/-! ## Order -/

instance : Std.LawfulEqCmp Component.compare where
  compare_self {a} := by cases a <;> simp [Component.compare]
  eq_of_compare {a b} h := by
    cases a <;> cases b <;> simp_all [Component.compare]

instance : Std.TransCmp Component.compare where
  eq_swap {a b} := by
    cases a with
    | name x =>
      cases b with
      | name y => exact (inferInstance : Std.OrientedCmp (Ord.compare : String → String → Ordering)).eq_swap
      | _ => rfl
    | _ => cases b <;> rfl
  isLE_trans {a b c} hab hbc := by
    cases b with
    | name y =>
      cases c with
      | name z =>
        cases a with
        | name x =>
          exact (inferInstance : Std.TransCmp (Ord.compare : String → String → Ordering)).isLE_trans hab hbc
        | _ => rfl
      | _ => cases hbc
    | _ => cases a <;> first | (cases hab; done) | (cases c <;> first | rfl | cases hbc)

instance : Std.TransCmp compare where
  eq_swap := (inferInstance : Std.OrientedCmp (List.compareLex Component.compare)).eq_swap
  isLE_trans := (inferInstance : Std.TransCmp (List.compareLex Component.compare)).isLE_trans

theorem compare_eq_iff {p q : Path} : p.compare q = .eq ↔ p.Same q := by
  rw [compare, Same, Std.LawfulEqCmp.compare_eq_iff_eq]

end Bundler.Path
