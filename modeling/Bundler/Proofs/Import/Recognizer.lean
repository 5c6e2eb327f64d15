import Bundler.Proofs.Import.Leftmost
import Mathlib.Order.Bounds.Basic
/-!
# What the scanner's state says

The scanner keeps a state and forgets the bytes. `recognizes` says what the state knows about all the bytes read so far:
whether the leftmost scan is in a literal that is still open, and which; and otherwise the longest beginning of the
keyword that the bytes behind the last closed literal end with. So the scanner looks at the keyword only where it has a
byte (`step?_eq`).
-/

namespace Bundler.Import

variable {source : Bytes} {imports : List Import} {state : Scanner} {p i n start bound matched : Nat} {quote : UInt8}

/-- The position behind the last literal of some imports, and `p` if there is none. -/
def resume (p : Nat) : List Import → Nat
  | [] => p
  | a :: rest => resume (a.span.stop + 1) rest

/-- The first literal that is opened from a position on is never closed, and its text begins at `start`. -/
def LeftOpen (source : Bytes) (p : Nat) (quote : UInt8) (start : Nat) : Prop :=
  ∃ i, FirstOpening source p i quote ∧ start = textStart i ∧ ∀ j, start ≤ j → source[j]? ≠ some quote

/-- A source is left open in at most one way. -/
theorem LeftOpen.unique {other : UInt8} {start' : Nat} (h : LeftOpen source p quote start)
    (h' : LeftOpen source p other start') : quote = other ∧ start = start' := by
  obtain ⟨i, hfirst, rfl, -⟩ := h
  obtain ⟨i', hfirst', rfl, -⟩ := h'
  obtain rfl := hfirst.least.unique hfirst'.least
  exact ⟨hfirst.opens.quote_eq hfirst'.opens, rfl⟩

/-- The quote that opens a literal stands in front of its text. -/
theorem LeftOpen.getElem?_pred (h : LeftOpen source p quote start) : 0 < start ∧ source[start - 1]? = some quote := by
  obtain ⟨i, hfirst, rfl, -⟩ := h
  refine ⟨Nat.succ_pos _, ?_⟩
  have hget := congrArg (·[keyword.length]?) (drop_of_opens hfirst.opens)
  rw [List.getElem?_drop, List.getElem?_append_right (Nat.le_refl _), Nat.sub_self, List.getElem?_cons_zero] at hget
  exact hget

/-! ## The state behind the last literal -/

/-- The state of a scanner that was reading from a position on, outside of literals. -/
def StateFrom (source : Bytes) (p : Nat) (state : Scanner) : Prop :=
  (∃ n, IsGreatest (endings (source.drop p)) n ∧ (∀ i quote, p ≤ i → ¬ Opens source i quote) ∧ state = spelling n) ∨
    ∃ quote start, LeftOpen source p quote start ∧ state = .inLiteral quote start

theorem stateFrom_of_absent (h : ∀ i quote, p ≤ i → ¬ Opens source i quote) (found : List Span) :
    StateFrom source p ((source.drop p).foldl Scan.read ⟨.outside, p, found⟩).state := by
  obtain ⟨n, hn, hsteady⟩ := exists_steady (plain_of_absent h)
  exact .inl ⟨n, hn, h, by rw [hsteady]⟩

theorem stateFrom_of_unclosed (hopens : FirstOpening source p i quote)
    (h : ∀ j, textStart i ≤ j → source[j]? ≠ some quote) (found : List Span) :
    StateFrom source p ((source.drop p).foldl Scan.read ⟨.outside, p, found⟩).state := by
  obtain ⟨lead, hsource, hlength, hlead⟩ := hopens.exists_lead
  refine .inr ⟨quote, textStart i, ⟨i, hopens, rfl, h⟩, ?_⟩
  rw [hsource, List.foldl_append, hlead, List.foldl_cons, read_quote hopens.opens.1, foldl_text (notMem_drop h),
    hlength, textStart]

/-- The scanner comes out of each closed literal as it began, so that only what is behind the last one counts. -/
theorem Leftmost.stateFrom (h : Leftmost source p imports) (found : List Span) :
    StateFrom source (resume p imports) ((source.drop p).foldl Scan.read ⟨.outside, p, found⟩).state := by
  induction h generalizing found with
  | absent h => exact stateFrom_of_absent h found
  | unclosed hopens h => exact stateFrom_of_unclosed hopens h found
  | literal hopens hcloses _ ih =>
    obtain ⟨l, hl, hsource, hspan, -⟩ := hopens.exists_literal hcloses
    rw [hsource, foldl_literal hl, hspan]
    exact ih _

/-! ## What the state tells -/

/-- What a state says about the bytes read, when the last closed literal ends in front of `p`. -/
structure Recognized (source : Bytes) (p : Nat) (state : Scanner) : Prop where
  inLiteral : ∀ quote start, state = .inLiteral quote start ↔ LeftOpen source p quote start
  opening : ∀ quote start, state = .inLiteral quote start → 0 < start ∧ source[start - 1]? = some quote
  awaitingQuote : state.Outer → (state = .awaitingQuote ↔ keyword <:+ source.drop p)
  matching : state.Outer → ∀ n,
    state = .matching n ↔ (0 < n ∧ n < keyword.length) ∧ IsGreatest (endings (source.drop p)) n
  outside : state.Outer → (state = .outside ↔ IsGreatest (endings (source.drop p)) 0)

theorem keyword_suffix_iff {bytes : Bytes} (h : IsGreatest (endings bytes) n) :
    keyword <:+ bytes ↔ n = keyword.length := by
  constructor
  · intro hsuffix
    refine Nat.le_antisymm h.1.1 (h.2 ⟨Nat.le_refl _, ?_⟩)
    rwa [List.take_length]
  · rintro rfl
    simpa using h.1.2

theorem outer_spelling (n : Nat) : (spelling n).Outer := by
  unfold spelling
  split
  · trivial
  · split <;> trivial

theorem spelling_eq_awaitingQuote : spelling n = .awaitingQuote ↔ n = keyword.length := by
  unfold spelling
  split
  · next hzero => subst hzero; exact ⟨nofun, nofun⟩
  · split
    · next hfull => exact ⟨fun _ => hfull, fun _ => rfl⟩
    · next hless => exact ⟨nofun, fun hfull => absurd hfull hless⟩

theorem spelling_eq_outside : spelling n = .outside ↔ n = 0 := by
  unfold spelling
  split
  · next hzero => exact ⟨fun _ => hzero, fun _ => rfl⟩
  · next hne =>
    refine ⟨fun h => ?_, fun hzero => absurd hzero hne⟩
    split at h <;> cases h

theorem spelling_eq_matching {k : Nat} (hn : n ≤ keyword.length) :
    spelling n = .matching k ↔ (0 < k ∧ k < keyword.length) ∧ n = k := by
  unfold spelling
  split
  · next hzero => subst hzero; exact ⟨nofun, fun ⟨⟨hpos, _⟩, hk⟩ => absurd hk (Nat.ne_of_lt hpos)⟩
  · next hne =>
    split
    · next hfull => subst hfull; exact ⟨nofun, fun ⟨⟨_, hlt⟩, hk⟩ => absurd hk.symm (Nat.ne_of_lt hlt)⟩
    · next hless =>
      refine ⟨fun h => ?_, fun ⟨_, hk⟩ => by rw [hk]⟩
      cases h
      exact ⟨⟨Nat.pos_of_ne_zero hne, Nat.lt_of_le_of_ne hn hless⟩, rfl⟩

theorem StateFrom.recognized (h : StateFrom source p state) : Recognized source p state := by
  rcases h with ⟨n, hn, habsent, rfl⟩ | ⟨quote, start, hopen, rfl⟩
  · have hout (quote : UInt8) (start : Nat) : spelling n ≠ .inLiteral quote start := by
      intro heq
      have houter := outer_spelling n
      rw [heq] at houter
      exact houter
    have hgreatest (k : Nat) : n = k ↔ IsGreatest (endings (source.drop p)) k :=
      ⟨fun hk => hk ▸ hn, fun hk => hn.unique hk⟩
    refine ⟨fun quote start => ⟨fun heq => absurd heq (hout quote start), ?_⟩,
      fun quote start heq => absurd heq (hout quote start), fun _ => ?_, fun _ k => ?_, fun _ => ?_⟩
    · rintro ⟨i, hfirst, -⟩
      exact absurd hfirst.opens (habsent i quote hfirst.least.1.1)
    · rw [spelling_eq_awaitingQuote, keyword_suffix_iff hn]
    · rw [spelling_eq_matching hn.1.1, hgreatest]
    · rw [spelling_eq_outside, hgreatest]
  · refine ⟨fun other start' => ⟨fun heq => ?_, fun hopen' => ?_⟩, fun other start' heq => ?_, nofun, nofun, nofun⟩
    · cases heq
      exact hopen
    · obtain ⟨rfl, rfl⟩ := hopen.unique hopen'
      rfl
    · cases heq
      exact hopen.getElem?_pred

/-! ## Looking at the keyword -/

/-- The part of the keyword in a range, where the keyword has it. -/
def keywordSlice? (start stop : Nat) : Option Bytes :=
  if start ≤ stop ∧ stop ≤ keyword.length then some (slice keyword start stop) else none

/-- `longestBorder`, if it looks at nothing but the keyword's own bytes. -/
def longestBorder? (matched : Nat) (byte : UInt8) : Nat → Option Nat
  | 0 => some 0
  | k + 1 => do
    let expected ← keyword[k]?
    if expected = byte then
      let front ← keywordSlice? 0 k
      let back ← keywordSlice? (matched - k) matched
      if front = back then some (k + 1) else longestBorder? matched byte k
    else longestBorder? matched byte k

/-- `restart`, if it looks at nothing but the keyword's own bytes. -/
def restart? (matched : Nat) (byte : UInt8) : Option Scanner :=
  (longestBorder? matched byte matched).map fun
    | 0 => .outside
    | k => .matching k

/-- `step`, if it looks at nothing but the keyword's own bytes. -/
def Scanner.step? (state : Scanner) (pos : Nat) (byte : UInt8) : Option (Scanner × Option Span) :=
  match state with
  | .outside => do
    let expected ← keyword[0]?
    return (if expected = byte then .matching 1 else .outside, none)
  | .matching n => do
    let expected ← keyword[n]?
    if expected = byte then return (if n + 1 = keyword.length then .awaitingQuote else .matching (n + 1), none)
    else return (← restart? n byte, none)
  | .awaitingQuote =>
    if isQuote byte then some (.inLiteral byte (pos + 1), none)
    else do return (← restart? keyword.length byte, none)
  | .inLiteral quote start =>
    if byte = quote then some (.outside, some ⟨start, pos⟩) else some (.inLiteral quote start, none)

/-- Where the state is a length, the keyword has a byte there. -/
def Scanner.InBounds : Scanner → Prop
  | .matching n => n < keyword.length
  | _ => True

theorem longestBorder?_eq (hmatched : matched ≤ keyword.length) (hbound : bound ≤ matched) (byte : UInt8) :
    longestBorder? matched byte bound = some (longestBorder matched byte bound) := by
  induction bound with
  | zero => rfl
  | succ k ih =>
    have hk : k < keyword.length := Nat.lt_of_lt_of_le hbound hmatched
    have ih := ih (Nat.le_of_succ_le hbound)
    have hfront : keywordSlice? 0 k = some (keyword.take k) := if_pos ⟨Nat.zero_le k, hk.le⟩
    have hback : keywordSlice? (matched - k) matched = some (slice keyword (matched - k) matched) :=
      if_pos ⟨Nat.sub_le matched k, hmatched⟩
    rw [longestBorder?, longestBorder, List.getElem?_eq_getElem hk, hfront, hback, ih]
    simp only [Option.bind_eq_bind, Option.bind_some, Option.some.injEq]
    by_cases hbyte : keyword[k] = byte
    · simp only [hbyte, true_and, if_true]
      split <;> rfl
    · simp only [hbyte, false_and, if_false]

theorem restart?_eq (hmatched : matched ≤ keyword.length) (byte : UInt8) :
    restart? matched byte = some (restart matched byte) := by
  rw [restart?, longestBorder?_eq hmatched (Nat.le_refl _), Option.map_some]
  rfl

/-- The keyword has every byte that a step looks at. -/
theorem step?_eq (h : state.InBounds) (pos : Nat) (byte : UInt8) :
    state.step? pos byte = some (state.step pos byte) := by
  cases state with
  | outside =>
    have hget : keyword[0]? = some 0x72 := rfl
    rw [Scanner.step?, Scanner.step, hget]
    simp only [Option.bind_eq_bind, Option.bind_some, Option.some.injEq]
    split <;> rfl
  | matching n =>
    have hget : keyword[n]? = some keyword[n] := List.getElem?_eq_getElem h
    rw [Scanner.step?, Scanner.step, hget, restart?_eq h.le]
    simp only [Option.bind_eq_bind, Option.bind_some, Option.some.injEq]
    split <;> rfl
  | awaitingQuote =>
    rw [Scanner.step?, Scanner.step, restart?_eq (Nat.le_refl _)]
    split <;> rfl
  | inLiteral quote start =>
    rw [Scanner.step?, Scanner.step]
    split <;> rfl

theorem Recognized.inBounds (h : Recognized source p state) : state.InBounds := by
  cases state with
  | matching n => exact ((h.matching trivial n).1 rfl).1.2
  | _ => trivial

/-- After any bytes, the scanner is in a literal exactly where the leftmost scan is in one that is still open. Otherwise
its state is the length of the longest beginning of the keyword that the bytes behind the last closed literal end with:
all of it, none of it, or something in between. Whatever byte comes next, the scanner finds in the keyword what it
compares. -/
theorem recognizes (source : Bytes) :
    Leftmost source 0 (scan source) ∧ Recognized source (resume 0 (scan source)) (Scan.after source).state ∧
      ∀ pos byte, (Scan.after source).state.step? pos byte = some ((Scan.after source).state.step pos byte) := by
  have hleftmost := leftmost_scan source
  have hrecognized := (hleftmost.stateFrom []).recognized
  rw [List.drop_zero] at hrecognized
  exact ⟨hleftmost, hrecognized, step?_eq hrecognized.inBounds⟩

/-- A broken match still spells what its end has in common with the keyword, and not more. -/
example : (Scan.after (Utf8.encode "require('a')requirerequir")).state = .matching 6 := by decide

end Bundler.Import
