import Bundler.Import.Retarget
import Bundler.Proofs.Import.Scan
import Mathlib.Data.List.Basic
/-!
# What a retargeted source imports

Putting other texts into the literals of a source leaves all else as it is (`retarget_assemble`). The scanner finds
these texts again exactly when none of them has the quote of its literal in it (`specifiers_retarget_iff`): otherwise
the literal ends there, and what the text goes on with is read as source. What was put in is listed where it came first
(`pairwise_keepFirst`).
-/

namespace Bundler

/-! ## First occurrences -/

section FirstOccurrences

variable {α : Type} [DecidableEq α] {x : α} {xs : List α}

theorem mem_keepFirst : x ∈ keepFirst xs ↔ x ∈ xs := by
  induction xs with
  | nil => rfl
  | cons first rest ih =>
    rw [keepFirst, List.mem_cons, List.mem_filter, ih, List.mem_cons, decide_eq_true_iff]
    by_cases hx : x = first <;> simp [hx]

theorem length_keepFirst_le (xs : List α) : (keepFirst xs).length ≤ xs.length := by
  induction xs with
  | nil => exact Nat.le_refl 0
  | cons first rest ih =>
    rw [keepFirst, List.length_cons, List.length_cons]
    exact Nat.succ_le_succ (Nat.le_trans (List.length_filter_le _ _) ih)

theorem pairwise_keepFirst (xs : List α) : (keepFirst xs).Pairwise fun a b => xs.idxOf a < xs.idxOf b := by
  induction xs with
  | nil => exact List.Pairwise.nil
  | cons first rest ih =>
    have later {a : α} (ha : a ∈ (keepFirst rest).filter (· ≠ first)) :
        (first :: rest).idxOf a = rest.idxOf a + 1 :=
      List.idxOf_cons_ne rest (Ne.symm (of_decide_eq_true (List.mem_filter.1 ha).2))
    refine List.pairwise_cons.2 ⟨fun a ha => ?_, (ih.filter _).imp_of_mem fun ha hb hlt => ?_⟩
    · rw [later ha, List.idxOf_cons_self]
      exact Nat.succ_pos _
    · rw [later ha, later hb]
      exact Nat.succ_lt_succ hlt

end FirstOccurrences

namespace Import

variable {l : Literal} {literals : List Literal} {source tail : Bytes} {resolve : String → Option String}

/-- The literal with the text that takes the place of its own. -/
def Literal.retarget (resolve : String → Option String) (l : Literal) : Literal :=
  { l with text := ((resolve (Utf8.decodeLossy l.text)).map Utf8.encode).getD l.text }

theorem splice_assemble (resolve : String → Option String) (gap : Bytes) (pos : Nat) (literals : List Literal)
    (tail : Bytes) :
    splice (gap ++ assemble literals tail) pos ((located (pos + gap.length) literals).map fun x =>
        (x.2, (resolve (Utf8.decodeLossy x.1.text)).map Utf8.encode)) =
      gap ++ assemble (literals.map (Literal.retarget resolve)) tail := by
  induction literals generalizing gap pos with
  | nil => rfl
  | cons l literals ih =>
    have hrest := ih [l.quote] (l.span (pos + gap.length)).stop
    rw [List.length_singleton] at hrest
    simp only [located, List.map_cons, splice, assemble_cons, drop_lead, take_lead, length_span, List.take_left,
      List.drop_left, Literal.retarget]
    rw [← List.singleton_append (x := l.quote) (l := assemble literals tail), hrest]
    simp only [List.append_assoc, List.singleton_append]
    rfl

/-- Only the texts of literals are replaced, and the new ones are listed once each. -/
theorem retarget_assemble (hl : ∀ l ∈ literals, l.Valid) (ht : Quiet tail) :
    retarget resolve (assemble literals tail) =
      ⟨assemble (literals.map (Literal.retarget resolve)) tail,
        keepFirst (literals.filterMap fun l => resolve (Utf8.decodeLossy l.text))⟩ := by
  have hsource := splice_assemble resolve [] 0 literals tail
  simp only [List.nil_append, List.length_nil, Nat.add_zero] at hsource
  unfold retarget
  simp only [scan_assemble hl ht, List.map_map, Retargeted.mk.injEq]
  refine ⟨hsource, congrArg keepFirst ?_⟩
  calc ((located 0 literals).map _).filterMap (fun x : Span × Option String => x.2)
      = (located 0 literals).filterMap fun x => resolve (Utf8.decodeLossy x.1.text) := by
        rw [List.filterMap_map]
        rfl
    _ = ((located 0 literals).map Prod.fst).filterMap fun l => resolve (Utf8.decodeLossy l.text) := by
        rw [List.filterMap_map]
        rfl
    _ = literals.filterMap fun l => resolve (Utf8.decodeLossy l.text) := by rw [map_located]

/-! ## Quotes -/

/-- The quote that an import stands in. -/
def quote? (source : Bytes) (i : Import) : Option UInt8 := source[i.span.start - 1]?

/-- No text that takes the place of a specifier has the quote of its literal in it. -/
def Quotable (resolve : String → Option String) (source : Bytes) : Prop :=
  ∀ i ∈ scan source, ∀ s, resolve i.specifier = some s → ∀ q, quote? source i = some q → q ∉ Utf8.encode s

theorem quote_of_located (before : Bytes) (literals : List Literal) (tail : Bytes) :
    ∀ x ∈ located before.length literals, (before ++ assemble literals tail)[x.2.start - 1]? = some x.1.quote := by
  induction literals generalizing before with
  | nil => exact List.forall_mem_nil _
  | cons l literals ih =>
    rw [located, List.forall_mem_cons]
    constructor
    · have hstart : (l.span before.length).start - 1 = (before ++ l.lead).length := by
        simp only [Literal.span, List.length_append]
        omega
      rw [hstart, assemble_cons, ← List.append_assoc, List.getElem?_append_right (Nat.le_refl _), Nat.sub_self]
      rfl
    · have hlength : (l.span before.length).stop + 1 =
          (before ++ (l.lead ++ l.quote :: (l.text ++ [l.quote]))).length := by
        simp only [Literal.span, List.length_append, List.length_cons, List.length_nil]
        omega
      have hmore := ih (before ++ (l.lead ++ l.quote :: (l.text ++ [l.quote])))
      rw [← hlength] at hmore
      simpa using hmore

theorem quotable_iff (hl : ∀ l ∈ literals, l.Valid) (ht : Quiet tail) :
    Quotable resolve (assemble literals tail) ↔
      ∀ l ∈ literals, (l.retarget resolve).quote ∉ (l.retarget resolve).text := by
  have hquote := quote_of_located [] literals tail
  have hliterals (l : Literal) : l ∈ literals ↔ ∃ x ∈ located 0 literals, x.1 = l := by
    rw [← List.mem_map, map_located]
  unfold Quotable
  rw [scan_assemble hl ht, List.forall_mem_map]
  constructor
  · intro h l hmem
    obtain ⟨x, hx, rfl⟩ := (hliterals l).1 hmem
    have hspecifier := h x hx
    unfold Literal.retarget
    dsimp only
    cases hresolve : resolve (Utf8.decodeLossy x.1.text) with
    | none => exact (hl x.1 hmem).text
    | some s => exact hspecifier s hresolve x.1.quote (hquote x hx)
  · intro h x hx s hresolve q hq
    obtain rfl : x.1.quote = q := Option.some.inj ((hquote x hx).symm.trans hq)
    have hx := h x.1 ((hliterals x.1).2 ⟨x, hx, rfl⟩)
    unfold Literal.retarget at hx
    dsimp only at hx
    rw [show resolve (Utf8.decodeLossy x.1.text) = some s from hresolve] at hx
    exact hx

/-! ## What is found again -/

/-- A literal whose text has its quote in it is found with less. -/
theorem decodeLossy_ne {q : UInt8} (hq : isQuote q = true) {s : String} {front rest : Bytes}
    (h : Utf8.encode s = front ++ q :: rest) (hfront : q ∉ front) : Utf8.decodeLossy front ≠ s := by
  have hascii : q.toNat < 0x80 := by
    rcases Bool.or_eq_true_iff.1 hq with h | h <;> rw [eq_of_beq h] <;> decide
  obtain ⟨cs₁, cs₂, hs, hne, rfl⟩ := Utf8.exists_encode_front hascii h hfront
  have hdecode : Utf8.decodeLossy (cs₁.flatMap Utf8.encodeChar) = String.ofList cs₁ := by
    have hcs := Utf8.decodeLossy_encode (String.ofList cs₁)
    rwa [Utf8.encode, String.toList_ofList] at hcs
  intro heq
  rw [hdecode] at heq
  rw [← heq, String.toList_ofList] at hs
  exact hne (List.append_right_eq_self.1 hs.symm)

theorem specifiers_literals (hl : ∀ l ∈ literals, l.Valid) (ht : Quiet tail) :
    specifiers (assemble (literals.map (Literal.retarget resolve)) tail) =
        (literals.map fun l => (resolve (Utf8.decodeLossy l.text)).getD (Utf8.decodeLossy l.text)) ↔
      ∀ l ∈ literals, (l.retarget resolve).quote ∉ (l.retarget resolve).text := by
  induction literals with
  | nil => simpa using specifiers_quiet ht
  | cons l literals ih =>
    rw [List.forall_mem_cons] at hl
    rw [List.map_cons, List.map_cons, assemble_cons, List.forall_mem_cons]
    by_cases hquote : (l.retarget resolve).quote ∈ (l.retarget resolve).text
    · -- the literal ends early, so that the first specifier is not what it is to be
      refine iff_of_false (fun heq => ?_) fun h => h.1 hquote
      obtain ⟨front, rest, htext, hfront⟩ := List.eq_append_cons_of_mem hquote
      rw [htext, List.append_assoc, List.cons_append] at heq
      have hvalid : (⟨l.lead, l.quote, front⟩ : Literal).Valid := ⟨hl.1.lead, hl.1.quote, hfront⟩
      have hfirst := (List.cons.inj ((specifiers_cons hvalid _).symm.trans heq)).1
      unfold Literal.retarget at htext hquote
      dsimp only at hfirst htext hquote
      cases hresolve : resolve (Utf8.decodeLossy l.text) with
      | none =>
        rw [hresolve] at hquote
        exact hl.1.text hquote
      | some s =>
        rw [hresolve] at htext hfirst
        exact decodeLossy_ne hl.1.quote htext hfront hfirst
    · have hvalid : (l.retarget resolve).Valid := ⟨hl.1.lead, hl.1.quote, hquote⟩
      have hfirst : Utf8.decodeLossy (l.retarget resolve).text =
          (resolve (Utf8.decodeLossy l.text)).getD (Utf8.decodeLossy l.text) := by
        unfold Literal.retarget
        cases resolve (Utf8.decodeLossy l.text) with
        | none => rfl
        | some s => exact Utf8.decodeLossy_encode s
      rw [specifiers_cons hvalid, hfirst, List.cons_inj_right, ih hl.2]
      exact (and_iff_right hquote).symm

/-- The scanner finds in a retargeted source what was put into it, and what was left as it is, exactly when no text has
the quote of its literal in it. What was put in is listed in any case. -/
theorem specifiers_retarget_iff (resolve : String → Option String) (source : Bytes) :
    (specifiers (retarget resolve source).source =
        ((specifiers source).map fun specifier => (resolve specifier).getD specifier) ↔ Quotable resolve source) ∧
      (retarget resolve source).imports = keepFirst ((specifiers source).filterMap resolve) := by
  obtain ⟨literals, tail, rfl, hl, ht⟩ := exists_literals source
  rw [retarget_assemble hl ht, quotable_iff hl ht, specifiers_assemble hl ht, List.map_map, List.filterMap_map]
  exact ⟨specifiers_literals hl ht, rfl⟩

end Import
end Bundler
