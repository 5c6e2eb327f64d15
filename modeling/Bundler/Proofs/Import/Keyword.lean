import Bundler.Proofs.Import.Scan
import Mathlib.Data.List.Induction
import Mathlib.Order.Bounds.Defs
/-!
# How far the keyword was read

Between literals the scanner knows how long a beginning of the keyword the bytes end with, and always the longest one
(`isGreatest_extend`). From this alone it goes on (`step_spelling`): it never looks back at the bytes. So it finds
nothing up to the first quote that stands right behind the keyword (`exists_steady`).
-/

namespace Bundler.Import

variable {bytes : Bytes} {b : UInt8} {k n bound matched : Nat} {S : Set Nat}

/-- The lengths of the beginnings of the keyword that some bytes end with. -/
def endings (bytes : Bytes) : Set Nat := {k | k ≤ keyword.length ∧ keyword.take k <:+ bytes}

theorem zero_mem_endings (bytes : Bytes) : 0 ∈ endings bytes := ⟨Nat.zero_le _, List.nil_suffix⟩

theorem isGreatest_nil : IsGreatest (endings []) 0 := by
  refine ⟨zero_mem_endings [], fun k hk => ?_⟩
  have hlength := congrArg List.length (List.suffix_nil.1 hk.2)
  rw [List.length_take, Nat.min_eq_left hk.1] at hlength
  exact Nat.le_of_eq hlength

theorem concat_suffix_concat {b' : UInt8} {front : Bytes} :
    front ++ [b'] <:+ bytes ++ [b] ↔ front <:+ bytes ∧ b' = b := by
  have hlength : [b'].length = [b].length := rfl
  rw [List.suffix_append_inj_of_length_eq hlength, List.singleton_inj]

/-- With one more byte a beginning of the keyword ends the bytes that the byte has made longer. -/
theorem succ_mem_endings : k + 1 ∈ endings (bytes ++ [b]) ↔ keyword[k]? = some b ∧ k ∈ endings bytes := by
  constructor
  · rintro ⟨hlength, hsuffix⟩
    rw [List.take_add_one, List.getElem?_eq_getElem hlength, Option.toList_some,
      concat_suffix_concat] at hsuffix
    exact ⟨by rw [List.getElem?_eq_getElem hlength, hsuffix.2], Nat.le_of_lt hlength, hsuffix.1⟩
  · rintro ⟨hb, -, hsuffix⟩
    refine ⟨(List.getElem?_eq_some_iff.1 hb).1, ?_⟩
    rw [List.take_add_one, hb, Option.toList_some, concat_suffix_concat]
    exact ⟨hsuffix, rfl⟩

/-! ## After a byte that breaks a match -/

/-- The shorter beginnings that the bytes end with are known from the longest one. -/
theorem mem_endings_iff (hn : n ∈ endings bytes) (hk : k ≤ n) :
    k ∈ endings bytes ↔ keyword.take k = slice keyword (n - k) n := by
  have hlength {m : Nat} (hm : m ≤ n) : (keyword.take m).length = m := by
    rw [List.length_take, Nat.min_eq_left (Nat.le_trans hm hn.1)]
  have hslice :
      slice keyword (n - k) n = (keyword.take n).drop ((keyword.take n).length - (keyword.take k).length) := by
    rw [slice, hlength (Nat.le_refl n), hlength hk, List.drop_take]
  rw [hslice, ← List.suffix_iff_eq_drop]
  constructor
  · intro h
    exact List.suffix_of_suffix_length_le h.2 hn.2 (by rw [hlength hk, hlength (Nat.le_refl n)]; exact hk)
  · intro h
    exact ⟨Nat.le_trans hk hn.1, h.trans hn.2⟩

/-- The border that is looked for is the longest of those up to a bound. -/
theorem isGreatest_longestBorder (hzero : 0 ∈ S)
    (hS : ∀ k < bound, k + 1 ∈ S ↔ keyword[k]? = some b ∧ keyword.take k = slice keyword (matched - k) matched) :
    IsGreatest {k | k ∈ S ∧ k ≤ bound} (longestBorder matched b bound) := by
  induction bound with
  | zero => exact ⟨⟨hzero, Nat.le_refl 0⟩, fun k hk => hk.2⟩
  | succ bound ih =>
    rw [longestBorder]
    split
    · next hborder => exact ⟨⟨(hS bound (Nat.lt_succ_self _)).2 hborder, Nat.le_refl _⟩, fun k hk => hk.2⟩
    · next hborder =>
      obtain ⟨⟨hmem, hle⟩, hgreatest⟩ := ih fun k hk => hS k (Nat.lt_succ_of_lt hk)
      refine ⟨⟨hmem, Nat.le_succ_of_le hle⟩, fun k hk => hgreatest ⟨hk.1, ?_⟩⟩
      rcases Nat.lt_or_eq_of_le hk.2 with hlt | rfl
      · exact Nat.le_of_lt_succ hlt
      · exact absurd ((hS bound (Nat.lt_succ_self _)).1 hk.1) hborder

theorem longestBorder_le (matched : Nat) (b : UInt8) (bound : Nat) : longestBorder matched b bound ≤ bound := by
  induction bound with
  | zero => exact Nat.le_refl 0
  | succ bound ih =>
    rw [longestBorder]
    split
    · exact Nat.le_refl _
    · exact Nat.le_succ_of_le ih

/-- A border is shorter than the keyword. -/
theorem longestBorder_lt (hmatched : matched ≤ keyword.length) (b : UInt8) :
    longestBorder matched b matched < keyword.length := by
  rcases Nat.lt_or_eq_of_le hmatched with hlt | rfl
  · exact Nat.lt_of_le_of_lt (longestBorder_le _ _ _) hlt
  · -- the keyword without its first byte is not the keyword without its last one
    have hne : ¬ (keyword[7]? = some b ∧ keyword.take 7 = slice keyword (8 - 7) 8) := fun h => absurd h.2 (by decide)
    show longestBorder 8 b (7 + 1) < 8
    rw [longestBorder, if_neg hne]
    exact Nat.lt_succ_of_le (longestBorder_le _ _ _)

/-! ## A byte more -/

/-- How long a beginning of the keyword the bytes end with after one more byte. -/
def extend (n : Nat) (b : UInt8) : Nat := if keyword[n]? = some b then n + 1 else longestBorder n b n

theorem isGreatest_extend (h : IsGreatest (endings bytes) n) (b : UInt8) :
    IsGreatest (endings (bytes ++ [b])) (extend n b) := by
  have hle : ∀ k, k + 1 ∈ endings (bytes ++ [b]) → k ≤ n := fun k hk => h.2 (succ_mem_endings.1 hk).2
  unfold extend
  split
  · next hb =>
    refine ⟨succ_mem_endings.2 ⟨hb, h.1⟩, fun k hk => ?_⟩
    cases k with
    | zero => exact Nat.zero_le _
    | succ k => exact Nat.succ_le_succ (hle k hk)
  · next hb =>
    have hborder : IsGreatest {k | k ∈ endings (bytes ++ [b]) ∧ k ≤ n} (longestBorder n b n) := by
      refine isGreatest_longestBorder (zero_mem_endings _) fun k hk => ?_
      rw [succ_mem_endings, mem_endings_iff h.1 (Nat.le_of_lt hk)]
    refine ⟨hborder.1.1, fun k hk => hborder.2 ⟨hk, ?_⟩⟩
    cases k with
    | zero => exact Nat.zero_le n
    | succ k =>
      refine Nat.lt_of_le_of_ne (hle k hk) ?_
      rintro rfl
      exact hb (succ_mem_endings.1 hk).1

/-- The state of a scanner that is in no literal. -/
def spelling (n : Nat) : Scanner :=
  if n = 0 then .outside else if n = keyword.length then .awaitingQuote else .matching n

theorem restart_eq (hmatched : matched ≤ keyword.length) (b : UInt8) :
    restart matched b = spelling (longestBorder matched b matched) := by
  have hlt := longestBorder_lt hmatched b
  unfold restart spelling
  split
  · next hzero => rw [if_pos hzero]
  · next hne => rw [if_neg hne, if_neg (Nat.ne_of_lt hlt)]

/-- The scanner goes from one length to the next, unless the byte opens a literal. -/
theorem step_spelling (hn : n ≤ keyword.length) (hb : ¬ (n = keyword.length ∧ isQuote b = true)) (pos : Nat) :
    (spelling n).step pos b = (spelling (extend n b), none) := by
  have hrestart := restart_eq hn b
  by_cases hzero : n = 0
  · subst hzero
    have hstart : spelling 0 = .outside := rfl
    rw [hstart, Scanner.step, extend]
    split <;> rfl
  by_cases hfull : n = keyword.length
  · have hquote : ¬ isQuote b = true := fun h => hb ⟨hfull, h⟩
    have hnone : keyword[n]? = none := List.getElem?_eq_none (Nat.le_of_eq hfull.symm)
    rw [extend, hnone, if_neg (Option.some_ne_none b).symm, ← hrestart, spelling, if_neg hzero, if_pos hfull,
      Scanner.step,
      if_neg hquote, hfull]
  · rw [extend, spelling, if_neg hzero, if_neg hfull, Scanner.step]
    split
    · next hbyte =>
      rw [spelling, if_neg (Nat.succ_ne_zero n)]
    · rw [hrestart]

/-! ## Up to the quote -/

/-- No quote stands right behind the keyword. -/
def Plain (bytes : Bytes) : Prop := ∀ quote, isQuote quote = true → ¬ keyword ++ [quote] <:+: bytes

theorem Plain.part {more : Bytes} (h : Plain more) (hpart : bytes <:+: more) : Plain bytes :=
  fun quote hquote hopens => h quote hquote (hopens.trans hpart)

/-- Where no literal is opened the scanner comes to know the longest beginning of the keyword, and finds nothing. -/
theorem exists_steady (h : Plain bytes) : ∃ n, IsGreatest (endings bytes) n ∧ Steady bytes (spelling n) := by
  induction bytes using List.reverseRecOn with
  | nil => exact ⟨0, isGreatest_nil, steady_nil⟩
  | append_singleton bytes b ih =>
    obtain ⟨n, hn, hsteady⟩ := ih (h.part (List.prefix_append bytes [b]).isInfix)
    refine ⟨extend n b, isGreatest_extend hn b, hsteady.concat (step_spelling hn.1.1 ?_)⟩
    rintro ⟨hfull, hquote⟩
    -- otherwise the keyword would stand in front of this quote
    have hkeyword : keyword <:+ bytes := by simpa [hfull] using hn.1.2
    exact h b hquote (concat_suffix_concat.2 ⟨hkeyword, rfl⟩).isInfix

/-- Right behind the keyword a quote is awaited. -/
theorem steady_keyword (h : Plain bytes) (hkeyword : keyword <:+ bytes) : Steady bytes .awaitingQuote := by
  obtain ⟨n, hn, hsteady⟩ := exists_steady h
  have hfull : n = keyword.length := by
    refine Nat.le_antisymm hn.1.1 (hn.2 ⟨Nat.le_refl _, ?_⟩)
    rwa [List.take_length]
  rw [hfull] at hsteady
  exact hsteady

end Bundler.Import
