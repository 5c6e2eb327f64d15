import Bundler.Import.Scan
import Bundler.Proofs.Text.Utf8
/-!
# What the scanner finds

A source is made of import literals, each with what leads up to it, and of a tail that holds none
(`exists_literals`). The scanner finds exactly these (`scan_assemble`): whatever a literal holds, the scanner looks for
nothing in it but its quote, and behind the quote it begins anew (`specifiers_cons`).
-/

namespace Bundler.Import

/-- An import literal, its text between the quotes, and what leads up to it. -/
structure Literal where
  lead : Bytes
  quote : UInt8
  text : Bytes

variable {l : Literal} {literals : List Literal} {bytes lead text tail gap rest : Bytes} {quote b : UInt8}
  {state state' : Scanner} {pos start : Nat} {found : List Span}

/-- The source that some literals and a tail make. -/
def assemble (literals : List Literal) (tail : Bytes) : Bytes :=
  literals.foldr (fun l rest => l.lead ++ l.quote :: (l.text ++ l.quote :: rest)) tail

@[simp] theorem assemble_nil (tail : Bytes) : assemble [] tail = tail := rfl

@[simp] theorem assemble_cons (l : Literal) (literals : List Literal) (tail : Bytes) :
    assemble (l :: literals) tail = l.lead ++ l.quote :: (l.text ++ l.quote :: assemble literals tail) := rfl

/-! ## Between the literals -/

/-- The scanner is in no literal. -/
def Scanner.Outer : Scanner → Prop
  | .inLiteral .. => False
  | _ => True

/-- From behind a literal the scanner comes to a state, wherever it is, and finds nothing on its way. -/
def Steady (bytes : Bytes) (state : Scanner) : Prop :=
  ∀ pos found, bytes.foldl Scan.read ⟨.outside, pos, found⟩ = ⟨state, pos + bytes.length, found⟩

/-- From behind a literal the scanner finds nothing. -/
def Quiet (tail : Bytes) : Prop := ∀ pos found, (tail.foldl Scan.read ⟨.outside, pos, found⟩).found = found

/-- What leads up to the literal ends with the keyword, and the literal ends at its quote. -/
structure Literal.Valid (l : Literal) : Prop where
  lead : Steady l.lead .awaitingQuote
  quote : isQuote l.quote = true
  text : l.quote ∉ l.text

theorem steady_nil : Steady [] .outside := fun _ _ => rfl

theorem Steady.quiet (h : Steady bytes state) : Quiet bytes := fun pos found => by rw [h pos found]

theorem Steady.concat (h : Steady bytes state) (hstep : ∀ pos, state.step pos b = (state', none)) :
    Steady (bytes ++ [b]) state' := by
  intro pos found
  rw [List.foldl_append, h pos found, List.length_append]
  simp only [List.foldl_cons, List.foldl_nil, Scan.read, hstep]
  rfl

theorem outer_restart (matched : Nat) (b : UInt8) : (restart matched b).Outer := by
  unfold restart
  split <;> trivial

/-- Outside a literal nothing is found, and only a quote behind the keyword leads into one. -/
theorem step_outer (h : state.Outer) (b : UInt8) :
    state = .awaitingQuote ∧ isQuote b = true ∨ ∃ state', state'.Outer ∧ ∀ pos, state.step pos b = (state', none) := by
  cases state with
  | outside =>
    right
    by_cases hb : keyword[0]? = some b
    · exact ⟨.matching 1, trivial, fun pos => if_pos hb⟩
    · exact ⟨.outside, trivial, fun pos => if_neg hb⟩
  | matching n =>
    right
    by_cases hb : keyword[n]? = some b
    · refine ⟨if n + 1 = keyword.length then .awaitingQuote else .matching (n + 1), ?_, fun pos => if_pos hb⟩
      split <;> trivial
    · exact ⟨restart n b, outer_restart n b, fun pos => if_neg hb⟩
  | awaitingQuote =>
    by_cases hb : isQuote b = true
    · exact .inl ⟨rfl, hb⟩
    · exact .inr ⟨_, outer_restart _ b, fun pos => if_neg hb⟩
  | inLiteral quote start => cases h

/-! ## In a literal -/

theorem read_quote (hb : isQuote b = true) (pos : Nat) (found : List Span) :
    Scan.read ⟨.awaitingQuote, pos, found⟩ b = ⟨.inLiteral b (pos + 1), pos + 1, found⟩ := by
  simp only [Scan.read, Scanner.step, hb, if_true]
  rfl

/-- In a literal the scanner reads on up to the quote. -/
theorem foldl_text (h : quote ∉ text) (pos : Nat) :
    text.foldl Scan.read ⟨.inLiteral quote start, pos, found⟩ = ⟨.inLiteral quote start, pos + text.length, found⟩ := by
  induction text generalizing pos with
  | nil => rfl
  | cons b text ih =>
    rw [List.mem_cons, not_or] at h
    have hread : Scan.read ⟨.inLiteral quote start, pos, found⟩ b = ⟨.inLiteral quote start, pos + 1, found⟩ := by
      simp only [Scan.read, Scanner.step, if_neg (Ne.symm h.1)]
      rfl
    rw [List.foldl_cons, hread, ih h.2, List.length_cons, Nat.add_assoc, Nat.add_comm 1]

/-- Where the text of a literal stands whose lead begins at a position. -/
def Literal.span (l : Literal) (pos : Nat) : Span :=
  ⟨pos + l.lead.length + 1, pos + l.lead.length + 1 + l.text.length⟩

theorem foldl_literal (h : l.Valid) (pos : Nat) (found : List Span) (rest : Bytes) :
    (l.lead ++ l.quote :: (l.text ++ l.quote :: rest)).foldl Scan.read ⟨.outside, pos, found⟩ =
      rest.foldl Scan.read ⟨.outside, (l.span pos).stop + 1, l.span pos :: found⟩ := by
  rw [List.foldl_append, h.lead pos found, List.foldl_cons, read_quote h.quote, List.foldl_append, foldl_text h.text,
    List.foldl_cons]
  simp only [Scan.read, Scanner.step, if_true]
  rfl

/-! ## A whole source -/

/-- Some literals with where their texts stand, when they begin at a position. -/
def located : Nat → List Literal → List (Literal × Span)
  | _, [] => []
  | pos, l :: literals => (l, l.span pos) :: located ((l.span pos).stop + 1) literals

theorem map_located (pos : Nat) (literals : List Literal) : (located pos literals).map Prod.fst = literals := by
  induction literals generalizing pos with
  | nil => rfl
  | cons l literals ih => rw [located, List.map_cons, ih]

theorem found_assemble (hl : ∀ l ∈ literals, l.Valid) (ht : Quiet tail) (pos : Nat) (found : List Span) :
    ((assemble literals tail).foldl Scan.read ⟨.outside, pos, found⟩).found =
      ((located pos literals).map Prod.snd).reverse ++ found := by
  induction literals generalizing pos found with
  | nil => exact ht pos found
  | cons l literals ih =>
    rw [List.forall_mem_cons] at hl
    rw [assemble_cons, foldl_literal hl.1, ih hl.2, located, List.map_cons, List.reverse_cons, List.append_assoc]
    rfl

/-- The import of a literal. -/
def importOf (x : Literal × Span) : Import := ⟨Utf8.decodeLossy x.1.text, x.2⟩

/-- Up to the text of a literal there is its lead and its quote. -/
theorem lead_eq (gap : Bytes) (l : Literal) (rest : Bytes) :
    gap ++ (l.lead ++ l.quote :: rest) = (gap ++ (l.lead ++ [l.quote])) ++ rest := by
  simp only [List.append_assoc, List.singleton_append]

theorem start_sub (gap : Bytes) (l : Literal) (pos : Nat) :
    (l.span (pos + gap.length)).start - pos = (gap ++ (l.lead ++ [l.quote])).length := by
  simp only [Literal.span, List.length_append, List.length_singleton]
  omega

theorem drop_lead (gap : Bytes) (l : Literal) (rest : Bytes) :
    (gap ++ (l.lead ++ l.quote :: rest)).drop ((l.span (pos + gap.length)).start - pos) = rest := by
  rw [lead_eq, start_sub, List.drop_left]

theorem take_lead (gap : Bytes) (l : Literal) (rest : Bytes) :
    (gap ++ (l.lead ++ l.quote :: rest)).take ((l.span (pos + gap.length)).start - pos) =
      gap ++ (l.lead ++ [l.quote]) := by
  rw [lead_eq, start_sub, List.take_left]

theorem length_span (l : Literal) (pos : Nat) : (l.span pos).stop - (l.span pos).start = l.text.length :=
  Nat.add_sub_cancel_left _ _

/-- The imports are cut out of the source. Where a cut begins some bytes can precede the literals, such as the quote of
the literal that was cut out before. -/
theorem cut_assemble (gap : Bytes) (pos : Nat) (literals : List Literal) (tail : Bytes) :
    cut (gap ++ assemble literals tail) pos ((located (pos + gap.length) literals).map Prod.snd) =
      (located (pos + gap.length) literals).map importOf := by
  induction literals generalizing gap pos with
  | nil => rfl
  | cons l literals ih =>
    have hrest := ih [l.quote] (l.span (pos + gap.length)).stop
    simp only [located, List.map_cons, cut, assemble_cons, drop_lead, length_span, List.take_left, List.drop_left,
      importOf]
    exact congrArg _ hrest

theorem scan_assemble (hl : ∀ l ∈ literals, l.Valid) (ht : Quiet tail) :
    scan (assemble literals tail) = (located 0 literals).map importOf := by
  have hspans : spans (assemble literals tail) = (located 0 literals).map Prod.snd := by
    rw [spans, Scan.after, Scan.start, found_assemble hl ht, List.append_nil, List.reverse_reverse]
  rw [scan, hspans]
  exact cut_assemble [] 0 literals tail

/-- Every source is made of literals and a tail. -/
theorem exists_literals (source : Bytes) :
    ∃ literals tail, source = assemble literals tail ∧ (∀ l ∈ literals, l.Valid) ∧ Quiet tail := by
  -- What was read since the last literal is carried along, and where a literal is open its text.
  suffices h : (∀ lead state, state.Outer → Steady lead state →
        ∃ literals tail, lead ++ source = assemble literals tail ∧ (∀ l ∈ literals, l.Valid) ∧ Quiet tail) ∧
      ∀ lead quote text, Steady lead .awaitingQuote → isQuote quote = true → quote ∉ text →
        ∃ literals tail, lead ++ quote :: (text ++ source) = assemble literals tail ∧ (∀ l ∈ literals, l.Valid) ∧
          Quiet tail from h.1 [] .outside trivial steady_nil
  induction source with
  | nil =>
    refine ⟨fun lead state _ hlead => ⟨[], _, rfl, List.forall_mem_nil _, (List.append_nil lead).symm ▸ hlead.quiet⟩,
      fun lead quote text hlead hquote htext => ⟨[], _, rfl, List.forall_mem_nil _, fun pos found => ?_⟩⟩
    rw [List.append_nil, List.foldl_append, hlead pos found, List.foldl_cons, read_quote hquote, foldl_text htext]
  | cons b source ih =>
    refine ⟨fun lead state houter hlead => ?_, fun lead quote text hlead hquote htext => ?_⟩
    · rcases step_outer houter b with ⟨rfl, hb⟩ | ⟨state', houter', hstep⟩
      · exact ih.2 lead b [] hlead hb List.not_mem_nil
      · have hmore := ih.1 (lead ++ [b]) state' houter' (hlead.concat hstep)
        rwa [List.append_assoc, List.singleton_append] at hmore
    · by_cases hb : quote = b
      · subst hb
        obtain ⟨literals, tail, rfl, hvalid, hquiet⟩ := ih.1 [] .outside trivial steady_nil
        have hfirst : (⟨lead, quote, text⟩ : Literal).Valid := ⟨hlead, hquote, htext⟩
        exact ⟨⟨lead, quote, text⟩ :: literals, tail, rfl, List.forall_mem_cons.2 ⟨hfirst, hvalid⟩, hquiet⟩
      · have hmore := ih.2 lead quote (text ++ [b]) hlead hquote (by simp [htext, hb])
        rwa [List.append_assoc, List.singleton_append] at hmore

/-! ## The specifiers -/

/-- What the imports of a source ask for. -/
def specifiers (source : Bytes) : List String := (scan source).map (·.specifier)

theorem specifiers_assemble (hl : ∀ l ∈ literals, l.Valid) (ht : Quiet tail) :
    specifiers (assemble literals tail) = literals.map fun l => Utf8.decodeLossy l.text := by
  calc specifiers (assemble literals tail)
      = (located 0 literals).map fun x => Utf8.decodeLossy x.1.text := by
        rw [specifiers, scan_assemble hl ht, List.map_map]
        rfl
    _ = ((located 0 literals).map Prod.fst).map fun l => Utf8.decodeLossy l.text := by
        rw [List.map_map]
        rfl
    _ = literals.map fun l => Utf8.decodeLossy l.text := by rw [map_located]

theorem specifiers_quiet (ht : Quiet tail) : specifiers tail = [] := specifiers_assemble (List.forall_mem_nil _) ht

/-- The first literal says nothing about what follows it. -/
theorem specifiers_cons (hl : l.Valid) (rest : Bytes) :
    specifiers (l.lead ++ l.quote :: (l.text ++ l.quote :: rest)) = Utf8.decodeLossy l.text :: specifiers rest := by
  obtain ⟨literals, tail, rfl, hliterals, ht⟩ := exists_literals rest
  rw [← assemble_cons, specifiers_assemble (List.forall_mem_cons.2 ⟨hl, hliterals⟩) ht,
    specifiers_assemble hliterals ht,
    List.map_cons]

end Bundler.Import
