import Bundler.Proofs.Import.Keyword
import Mathlib.Order.Nat
/-!
# The leftmost imports

`Leftmost` says which imports a source has without saying how they are found: from a position on, the first place where
the keyword stands in front of a quote opens a literal, and the first such quote behind closes it. The scanner finds
exactly these (`scan_leftmost`), though it reads each byte once and goes back to none.
-/

namespace Bundler.Import

variable {source : Bytes} {imports : List Import} {p i j : Nat} {quote : UInt8}

/-- The keyword stands at a position, and right behind it the quote. -/
def Opens (source : Bytes) (i : Nat) (quote : UInt8) : Prop :=
  isQuote quote = true ∧ keyword ++ [quote] <+: source.drop i

/-- Where the text of a literal begins that is opened at a position. -/
def textStart (i : Nat) : Nat := i + keyword.length + 1

theorem textStart_le (h : p ≤ i) : textStart p ≤ textStart i := Nat.add_le_add_right (Nat.add_le_add_right h _) 1

theorem lt_textStart (i : Nat) : i < textStart i := Nat.lt_succ_of_le (Nat.le_add_right i _)

/-- The first place from a position on where a literal is opened, and its quote. -/
structure FirstOpening (source : Bytes) (p i : Nat) (quote : UInt8) : Prop where
  opens : Opens source i quote
  least : IsLeast {i | p ≤ i ∧ ∃ quote, Opens source i quote} i

/-- The imports of a source from a position on. -/
inductive Leftmost (source : Bytes) : Nat → List Import → Prop
  | absent {p : Nat} (h : ∀ i quote, p ≤ i → ¬ Opens source i quote) : Leftmost source p []
  | unclosed {p i : Nat} {quote : UInt8} (hopens : FirstOpening source p i quote)
    (h : ∀ j, textStart i ≤ j → source[j]? ≠ some quote) : Leftmost source p []
  | literal {p i j : Nat} {quote : UInt8} {rest : List Import} (hopens : FirstOpening source p i quote)
    (hcloses : IsLeast {j | textStart i ≤ j ∧ source[j]? = some quote} j) (hrest : Leftmost source (j + 1) rest) :
    Leftmost source p (⟨Utf8.decodeLossy (slice source (textStart i) j), ⟨textStart i, j⟩⟩ :: rest)

/-! ## The parts of a source -/

theorem exists_isLeast {S : Set Nat} (h : S.Nonempty) : ∃ n, IsLeast S n := by
  classical
  exact ⟨Nat.find h, Nat.find_spec h, fun n hn => Nat.find_min' h hn⟩

/-- Where the keyword and a quote stand in a part of the source, they open a literal. -/
theorem exists_opens {part : Bytes} (hquote : isQuote quote = true) (hin : keyword ++ [quote] <:+: part)
    (hpart : part <+: source.drop p) : ∃ i, p ≤ i ∧ i + keyword.length < p + part.length ∧ Opens source i quote := by
  obtain ⟨front, back, rfl⟩ := hin
  obtain ⟨more, hmore⟩ := hpart
  refine ⟨p + front.length, Nat.le_add_right p _, ?_, hquote, back ++ more, ?_⟩
  · simp only [List.length_append, List.length_singleton]
    omega
  · rw [← List.drop_drop, ← hmore]
    simp only [List.append_assoc, List.drop_left]

theorem drop_of_opens (h : Opens source i quote) : source.drop i = keyword ++ quote :: source.drop (textStart i) := by
  obtain ⟨rest, hrest⟩ := h.2
  have hbehind : rest = source.drop (textStart i) := by
    rw [textStart, Nat.add_assoc, ← List.drop_drop, ← hrest]
    rfl
  rw [← hrest, hbehind, List.append_assoc, List.singleton_append]

/-- Only one quote stands behind a keyword. -/
theorem Opens.quote_eq {other : UInt8} (h : Opens source i quote) (h' : Opens source i other) : quote = other := by
  have heq := (drop_of_opens h).symm.trans (drop_of_opens h')
  exact (List.cons.inj (List.append_cancel_left heq)).1

/-- Where no literal is opened from a position on, no quote stands right behind the keyword. -/
theorem plain_of_absent (h : ∀ i quote, p ≤ i → ¬ Opens source i quote) : Plain (source.drop p) := by
  intro quote hquote hin
  obtain ⟨i, hi, -, hopens⟩ := exists_opens hquote hin List.prefix_rfl
  exact h i quote hi hopens

/-- What leads up to the first opening ends with the keyword, and nothing is found in it. -/
theorem FirstOpening.exists_lead (h : FirstOpening source p i quote) :
    ∃ lead, source.drop p = lead ++ quote :: source.drop (textStart i) ∧ p + lead.length = i + keyword.length ∧
      Steady lead .awaitingQuote := by
  have hp : p ≤ i := h.least.1.1
  have hdrop := drop_of_opens h.opens
  have hfront : (source.drop p).drop (i - p) = source.drop i := by rw [List.drop_drop, Nat.add_sub_cancel' hp]
  have hsource : source.drop p = ((source.drop p).take (i - p) ++ keyword) ++ quote :: source.drop (textStart i) := by
    rw [List.append_assoc, ← hdrop, ← hfront, List.take_append_drop]
  have hlength : p + ((source.drop p).take (i - p) ++ keyword).length = i + keyword.length := by
    have hbehind := congrArg List.length hdrop
    simp only [List.length_drop, List.length_append, List.length_cons, List.length_take] at hbehind ⊢
    omega
  refine ⟨_, hsource, hlength, steady_keyword (fun other hother hin => ?_) (List.suffix_append _ _)⟩
  -- an opening in the lead would come before the first one
  obtain ⟨k, hk, hbefore, hopens⟩ := exists_opens hother hin ⟨_, hsource.symm⟩
  have hleast := h.least.2 ⟨hk, other, hopens⟩
  omega

/-- What is in front of a place where the byte comes first is without the byte. -/
theorem notMem_slice {start : Nat} (h : ∀ k, start ≤ k → k < j → source[k]? ≠ some quote) :
    quote ∉ slice source start j := by
  intro hmem
  obtain ⟨k, hk⟩ := List.mem_iff_getElem?.1 hmem
  have hlt : k < j - start := by
    have hk := (List.getElem?_eq_some_iff.1 hk).1
    rw [slice, List.length_take] at hk
    omega
  rw [slice, List.getElem?_take_of_lt hlt, List.getElem?_drop] at hk
  exact h (start + k) (Nat.le_add_right _ _) (by omega) hk

/-- A quote that closes nothing does not come again. -/
theorem notMem_drop {start : Nat} (h : ∀ j, start ≤ j → source[j]? ≠ some quote) : quote ∉ source.drop start := by
  intro hmem
  obtain ⟨k, hk⟩ := List.mem_iff_getElem?.1 hmem
  rw [List.getElem?_drop] at hk
  exact h _ (Nat.le_add_right _ _) hk

/-- A source from a position on is the literal that is found first, and what is behind it. -/
theorem FirstOpening.exists_literal (h : FirstOpening source p i quote)
    (hcloses : IsLeast {j | textStart i ≤ j ∧ source[j]? = some quote} j) :
    ∃ l : Literal, l.Valid ∧ source.drop p = l.lead ++ l.quote :: (l.text ++ l.quote :: source.drop (j + 1)) ∧
      l.span p = ⟨textStart i, j⟩ ∧ l.text = slice source (textStart i) j := by
  obtain ⟨lead, hsource, hlength, hlead⟩ := h.exists_lead
  obtain ⟨⟨hstart, hj⟩, hleast⟩ := hcloses
  have hbound : j < source.length := (List.getElem?_eq_some_iff.1 hj).1
  have htext : quote ∉ slice source (textStart i) j :=
    notMem_slice fun k hk hlt heq => Nat.not_lt.2 (hleast ⟨hk, heq⟩) hlt
  have hbehind : (source.drop (textStart i)).drop (j - textStart i) = quote :: source.drop (j + 1) := by
    rw [List.drop_drop, Nat.add_sub_cancel' hstart, List.drop_eq_getElem_cons hbound]
    rw [List.getElem?_eq_getElem hbound] at hj
    rw [Option.some.inj hj]
  have hslice : (slice source (textStart i) j).length = j - textStart i := by
    rw [slice, List.length_take, List.length_drop]
    omega
  refine ⟨⟨lead, quote, slice source (textStart i) j⟩, ⟨hlead, h.opens.1, htext⟩, ?_, ?_, rfl⟩
  · rw [hsource, ← hbehind, slice, List.take_append_drop]
  · have hlead : p + lead.length + 1 = textStart i := by rw [hlength, textStart]
    simp only [Literal.span, hlead, hslice, Nat.add_sub_cancel' hstart]

/-- Behind the first opening nothing is found if its quote does not come again. -/
theorem FirstOpening.quiet (h : FirstOpening source p i quote)
    (hopen : ∀ j, textStart i ≤ j → source[j]? ≠ some quote) :
    Quiet (source.drop p) := by
  obtain ⟨lead, hsource, -, hlead⟩ := h.exists_lead
  intro pos found
  rw [hsource, List.foldl_append, hlead pos found, List.foldl_cons, read_quote h.opens.1,
    foldl_text (notMem_drop hopen)]

/-! ## The scanner and the reference -/

/-- The leftmost imports are the literals that a source is made of. -/
theorem Leftmost.exists_literals (h : Leftmost source p imports) :
    ∃ literals tail, source.drop p = assemble literals tail ∧ (∀ l ∈ literals, l.Valid) ∧ Quiet tail ∧
      imports = (located p literals).map importOf := by
  induction h with
  | absent h =>
    obtain ⟨n, -, hsteady⟩ := exists_steady (plain_of_absent h)
    exact ⟨[], _, rfl, List.forall_mem_nil _, hsteady.quiet, rfl⟩
  | unclosed hopens h => exact ⟨[], _, rfl, List.forall_mem_nil _, hopens.quiet h, rfl⟩
  | literal hopens hcloses _ ih =>
    obtain ⟨l, hl, hsource, hspan, htext⟩ := hopens.exists_literal hcloses
    obtain ⟨literals, tail, hrest, hliterals, hquiet, rfl⟩ := ih
    refine ⟨l :: literals, tail, ?_, List.forall_mem_cons.2 ⟨hl, hliterals⟩, hquiet, ?_⟩
    · rw [hsource, hrest, assemble_cons]
    · rw [located, hspan, List.map_cons, importOf, htext]

theorem Leftmost.scan_eq (h : Leftmost source 0 imports) : scan source = imports := by
  obtain ⟨literals, tail, hsource, hliterals, hquiet, rfl⟩ := h.exists_literals
  rw [List.drop_zero] at hsource
  rw [hsource, scan_assemble hliterals hquiet]

/-- From every position on a source has leftmost imports. -/
theorem exists_leftmost (source : Bytes) (p : Nat) : ∃ imports, Leftmost source p imports := by
  induction hlength : source.length - p using Nat.strong_induction_on generalizing p with
  | _ length ih =>
  subst hlength
  by_cases hsome : {i | p ≤ i ∧ ∃ quote, Opens source i quote}.Nonempty
  · obtain ⟨i, hleast⟩ := exists_isLeast hsome
    obtain ⟨-, quote, hopens⟩ := hleast.1
    by_cases hclosed : {j | textStart i ≤ j ∧ source[j]? = some quote}.Nonempty
    · obtain ⟨j, hcloses⟩ := exists_isLeast hclosed
      have hbound : j < source.length := (List.getElem?_eq_some_iff.1 hcloses.1.2).1
      have hnext : p ≤ j := hleast.1.1.trans ((lt_textStart i).le.trans hcloses.1.1)
      obtain ⟨rest, hrest⟩ := ih (source.length - (j + 1)) (by omega) (j + 1) rfl
      exact ⟨_, .literal ⟨hopens, hleast⟩ hcloses hrest⟩
    · exact ⟨[], .unclosed ⟨hopens, hleast⟩ fun j hj heq => hclosed ⟨j, hj, heq⟩⟩
  · exact ⟨[], .absent fun i quote hi hopens => hsome ⟨i, hi, quote, hopens⟩⟩

theorem leftmost_scan (source : Bytes) : Leftmost source 0 (scan source) := by
  obtain ⟨imports, h⟩ := exists_leftmost source 0
  rwa [h.scan_eq]

/-! ## Where the imports are -/

theorem Leftmost.bounds (h : Leftmost source p imports) :
    ∀ a ∈ imports, textStart p ≤ a.span.start ∧ a.span.start ≤ a.span.stop ∧ a.span.stop < source.length := by
  induction h with
  | absent => exact List.forall_mem_nil _
  | unclosed => exact List.forall_mem_nil _
  | @literal p i j _ _ hopens hcloses _ ih =>
    have hp : textStart p ≤ textStart i := textStart_le hopens.least.1.1
    have hstart : textStart i ≤ j := hcloses.1.1
    refine List.forall_mem_cons.2 ⟨⟨hp, hstart, (List.getElem?_eq_some_iff.1 hcloses.1.2).1⟩, fun a ha => ?_⟩
    have hnext := lt_textStart (j + 1)
    obtain ⟨hbehind, hspan⟩ := ih a ha
    exact ⟨by omega, hspan⟩

theorem Leftmost.increasing (h : Leftmost source p imports) :
    imports.Pairwise fun a b => a.span.stop < b.span.start := by
  induction h with
  | absent => exact List.Pairwise.nil
  | unclosed => exact List.Pairwise.nil
  | @literal _ _ j _ _ _ _ hrest ih =>
    refine List.pairwise_cons.2 ⟨fun a ha => ?_, ih⟩
    have hnext := lt_textStart (j + 1)
    have hbehind := (hrest.bounds a ha).1
    show j < a.span.start
    omega

/-- Behind a literal that is never closed there is no import. -/
theorem Leftmost.before_unclosed (h : Leftmost source p imports) (hopens : Opens source i quote) (hp : p ≤ i)
    (hunclosed : ∀ j, textStart i ≤ j → source[j]? ≠ some quote)
    (houtside : ∀ a ∈ imports, a.span.stop < i ∨ textStart i ≤ a.span.start) : ∀ a ∈ imports, a.span.stop < i := by
  induction h with
  | absent => exact List.forall_mem_nil _
  | unclosed => exact List.forall_mem_nil _
  | @literal p k j other rest hfirst hcloses _ ih =>
    rw [List.forall_mem_cons] at houtside ⊢
    have hle : k ≤ i := hfirst.least.2 ⟨hp, quote, hopens⟩
    rcases houtside.1 with hbefore | hbehind
    · exact ⟨hbefore, ih hbefore houtside.2⟩
    · -- then this is the literal that is never closed
      obtain rfl : k = i := by
        have hbehind : textStart i ≤ textStart k := hbehind
        unfold textStart at hbehind
        omega
      rw [hfirst.opens.quote_eq hopens] at hcloses
      exact absurd hcloses.1.2 (hunclosed j hcloses.1.1)

/-- The scanner finds the leftmost imports and no others. Their spans are in the source and follow each other, and where
a literal outside of them is never closed they are all in front of it. -/
theorem scan_leftmost (source : Bytes) :
    (∀ imports, Leftmost source 0 imports ↔ scan source = imports) ∧
      (∀ a ∈ scan source, a.span.start ≤ a.span.stop ∧ a.span.stop < source.length) ∧
      (scan source).Pairwise (fun a b => a.span.stop < b.span.start) ∧
      ∀ i quote, Opens source i quote → (∀ j, textStart i ≤ j → source[j]? ≠ some quote) →
        (∀ a ∈ scan source, a.span.stop < i ∨ textStart i ≤ a.span.start) → ∀ a ∈ scan source, a.span.stop < i := by
  have h := leftmost_scan source
  refine ⟨fun imports => ⟨Leftmost.scan_eq, fun heq => heq ▸ h⟩, fun a ha => (h.bounds a ha).2, h.increasing, ?_⟩
  exact fun i quote hopens hunclosed houtside => h.before_unclosed hopens (Nat.zero_le i) hunclosed houtside

/-- The beginning of a keyword may be in another one, and what follows an open quote is text. -/
example : (scan (Utf8.encode "requirequire('c'); require(\"require('d')")).map (·.span) = [⟨14, 15⟩] := by decide

end Bundler.Import
