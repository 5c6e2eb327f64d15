import Bundler.Text.Utf8
/-!
# Text as bytes and back

Reading what was written gives the text (`decode?_encode`), so different texts have different bytes
(`encode_injective`).
-/

namespace Bundler.Utf8

/-! ## One character -/

theorem toNat_ofNat {n : Nat} (h : n < 256) : (UInt8.ofNat n).toNat = n := by
  rw [UInt8.toNat_ofNat']
  exact Nat.mod_eq_of_lt h

/-- The values of characters leave out the surrogates. -/
theorem char_range (c : Char) : c.toNat < 0xD800 ∨ 0xDFFF < c.toNat ∧ c.toNat < 0x110000 := c.valid

theorem step_none {pieces : List (Option Char)} {b : Nat} (hb : b < 256) :
    Reader.step ⟨pieces, none⟩ (UInt8.ofNat b) = Reader.first pieces b := by
  simp only [Reader.step, toNat_ofNat hb]

/-- A byte that can continue the open character adds six bits to it. -/
theorem step_more {pieces : List (Option Char)} {bits missing low high b : Nat} (hb : b < 256) (hlow : low ≤ b)
    (hhigh : b ≤ high) :
    Reader.step ⟨pieces, some ⟨bits, missing + 2, low, high⟩⟩ (UInt8.ofNat b) =
      ⟨pieces, some ⟨bits * 0x40 + (b - 0x80), missing + 1, 0x80, 0xBF⟩⟩ := by
  have hm : ¬ missing + 2 = 1 := by omega
  simp only [Reader.step, toNat_ofNat hb, hlow, hhigh, and_self, if_true, if_neg hm]
  rfl

/-- The last byte of a character ends it. -/
theorem step_last {pieces : List (Option Char)} {bits low high b : Nat} {c : Char} (hb : b < 256) (hlow : low ≤ b)
    (hhigh : b ≤ high) (hc : bits * 0x40 + (b - 0x80) = c.toNat) :
    Reader.step ⟨pieces, some ⟨bits, 1, low, high⟩⟩ (UInt8.ofNat b) = ⟨some c :: pieces, none⟩ := by
  simp only [Reader.step, toNat_ofNat hb, hlow, hhigh, and_self, if_true, hc, Char.ofNat_toNat]

theorem first_two {pieces : List (Option Char)} {n : Nat} (low : 2 ≤ n) (high : n < 0x20) :
    Reader.first pieces (0xC0 + n) = ⟨pieces, some ⟨n, 1, 0x80, 0xBF⟩⟩ := by
  rw [Reader.first, if_neg (by omega), if_neg (by omega), if_pos (by omega), Nat.add_sub_cancel_left]

theorem first_three {pieces : List (Option Char)} {n : Nat} (high : n < 0x10) :
    Reader.first pieces (0xE0 + n) =
      ⟨pieces, some ⟨n, 2, if 0xE0 + n = 0xE0 then 0xA0 else 0x80, if 0xE0 + n = 0xED then 0x9F else 0xBF⟩⟩ := by
  rw [Reader.first, if_neg (by omega), if_neg (by omega), if_neg (by omega), if_pos (by omega),
    Nat.add_sub_cancel_left]

theorem first_four {pieces : List (Option Char)} {n : Nat} (high : n < 5) :
    Reader.first pieces (0xF0 + n) =
      ⟨pieces, some ⟨n, 3, if 0xF0 + n = 0xF0 then 0x90 else 0x80, if 0xF0 + n = 0xF4 then 0x8F else 0xBF⟩⟩ := by
  rw [Reader.first, if_neg (by omega), if_neg (by omega), if_neg (by omega), if_neg (by omega), if_pos (by omega),
    Nat.add_sub_cancel_left]

/-- A character is read from its bytes, whatever was read before. -/
theorem foldl_encodeChar (pieces : List (Option Char)) (c : Char) :
    (encodeChar c).foldl Reader.step ⟨pieces, none⟩ = ⟨some c :: pieces, none⟩ := by
  have hc := char_range c
  unfold encodeChar
  dsimp only
  split
  next h1 => rw [List.foldl_cons, List.foldl_nil, step_none (by omega), Reader.first, if_pos h1, Char.ofNat_toNat]
  next h1 =>
  split
  next h2 =>
    simp only [List.foldl_cons, List.foldl_nil]
    rw [step_none (by omega), first_two (by omega) (by omega)]
    exact step_last (by omega) (by omega) (by omega) (by omega)
  next h2 =>
  split
  next h3 =>
    simp only [List.foldl_cons, List.foldl_nil]
    rw [step_none (by omega), first_three (by omega),
      step_more (by omega) (by split <;> omega) (by split <;> omega)]
    exact step_last (by omega) (by omega) (by omega) (by omega)
  next h3 =>
    simp only [List.foldl_cons, List.foldl_nil]
    rw [step_none (by omega), first_four (by omega),
      step_more (by omega) (by split <;> omega) (by split <;> omega), step_more (by omega) (by omega) (by omega)]
    exact step_last (by omega) (by omega) (by omega) (by omega)

/-! ## Texts -/

theorem foldl_encode (pieces : List (Option Char)) (cs : List Char) :
    (cs.flatMap encodeChar).foldl Reader.step ⟨pieces, none⟩ = ⟨(cs.map some).reverse ++ pieces, none⟩ := by
  induction cs generalizing pieces with
  | nil => rfl
  | cons c cs ih =>
    rw [List.flatMap_cons, List.foldl_append, foldl_encodeChar, ih]
    simp

theorem mapM_some (cs : List Char) : (cs.map some).mapM id = some cs := by
  induction cs with
  | nil => rfl
  | cons c cs ih => simp [List.mapM_cons, ih]

/-- The bytes of a text are read as the text. -/
theorem decode?_encode (s : String) : decode? (encode s) = some s := by
  unfold decode? pieces encode
  rw [foldl_encode, Reader.finish, List.append_nil, List.reverse_reverse, mapM_some, Option.map_some,
    String.ofList_toList]

theorem length_encode_le (s : String) : (encode s).length ≤ 4 * s.toList.length := by
  have hchar (c : Char) : (encodeChar c).length ≤ 4 := by
    unfold encodeChar
    dsimp only
    repeat' split
    all_goals simp
  unfold encode
  induction s.toList with
  | nil => simp
  | cons c cs ih =>
    have := hchar c
    rw [List.flatMap_cons, List.length_append, List.length_cons]
    omega

theorem encode_injective {s t : String} (h : encode s = encode t) : s = t := by
  have := congrArg decode? h
  rwa [decode?_encode, decode?_encode, Option.some.injEq] at this

/-- The bytes of a character are its number, or lie above all ASCII characters. -/
theorem mem_encodeChar {c : Char} {b : UInt8} (h : b ∈ encodeChar c) : b.toNat = c.toNat ∨ 0x80 ≤ b.toNat := by
  have hc := char_range c
  unfold encodeChar at h
  dsimp only at h
  split at h
  · rw [List.mem_singleton] at h
    rw [h, toNat_ofNat (by omega)]
    exact .inl rfl
  · right
    split at h <;> try split at h
    all_goals
      simp only [List.mem_cons, List.not_mem_nil, or_false] at h
      rcases h with rfl | rfl | rfl | rfl <;> rw [toNat_ofNat (by omega)] <;> omega

/-- What stands in front of the first ASCII byte of its kind in a text is a text of its own. -/
theorem exists_encode_front {cs : List Char} {b : UInt8} {front rest : Bytes} (hb : b.toNat < 0x80)
    (h : cs.flatMap encodeChar = front ++ b :: rest) (hfront : b ∉ front) :
    ∃ cs₁ cs₂, cs = cs₁ ++ cs₂ ∧ cs₂ ≠ [] ∧ front = cs₁.flatMap encodeChar := by
  induction cs generalizing front with
  | nil => simp at h
  | cons c cs ih =>
    rw [List.flatMap_cons] at h
    by_cases hc : b ∈ encodeChar c
    · -- the character is this byte, and nothing is in front of it
      have hvalue := (mem_encodeChar hc).resolve_right (by omega)
      have hchar : encodeChar c = [b] := by
        unfold encodeChar
        dsimp only
        rw [if_pos (by omega), ← hvalue, UInt8.ofNat_toNat]
      rw [hchar, List.singleton_append] at h
      cases front with
      | nil => exact ⟨[], c :: cs, rfl, List.cons_ne_nil _ _, rfl⟩
      | cons b' front => exact absurd ((List.cons.inj h).1 ▸ List.mem_cons_self) hfront
    · obtain ⟨front', rfl, hrest⟩ : ∃ front', front = encodeChar c ++ front' ∧
          cs.flatMap encodeChar = front' ++ b :: rest := by
        rcases List.append_eq_append_iff.1 h with hshort | ⟨_ | ⟨b', more⟩, hmore, hrest⟩
        · exact hshort
        · exact ⟨[], by simpa using hmore.symm, hrest.symm⟩
        · rw [(List.cons.inj hrest).1, hmore] at hc
          exact absurd (List.mem_append_right _ List.mem_cons_self) hc
      obtain ⟨cs₁, cs₂, rfl, hne, rfl⟩ := ih hrest fun hb => hfront (List.mem_append_right _ hb)
      exact ⟨c :: cs₁, cs₂, rfl, hne, rfl⟩

theorem decodeLossy_encode (s : String) : decodeLossy (encode s) = s := by
  unfold decodeLossy pieces encode
  rw [foldl_encode, Reader.finish, List.append_nil, List.reverse_reverse, List.map_map]
  exact (congrArg String.ofList (List.map_id _)).trans String.ofList_toList

end Bundler.Utf8
