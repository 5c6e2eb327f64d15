import Bundler.Cbor.Head
/-!
# Heads are read back

A head that was written for a length of 64 bits is read back, whatever follows it (`readHead_head`),
and a part of it is no head (`readHead_part`).
-/

namespace Bundler.Cbor

/-! ## Numbers -/

theorem length_bigEndian (width n : Nat) : (bigEndian width n).length = width := by
  induction width generalizing n with
  | zero => rfl
  | succ width ih => simp [bigEndian, ih]

/-- How many numbers there are of so many bytes. -/
def capacity : Nat → Nat
  | 0 => 1
  | width + 1 => capacity width * 256

/-- A number that fits its bytes is read back. -/
theorem natOfBytes_bigEndian (width n : Nat) (h : n < capacity width) : natOfBytes (bigEndian width n) = n := by
  induction width generalizing n with
  | zero => exact (Nat.lt_one_iff.1 h).symm
  | succ width ih =>
    have hdiv : n / 256 < capacity width := Nat.div_lt_of_lt_mul (Nat.lt_of_lt_of_eq h (Nat.mul_comm ..))
    have hhigh : (bigEndian width (n / 256)).foldl (fun n b => n * 256 + b.toNat) 0 = n / 256 := ih _ hdiv
    rw [bigEndian, natOfBytes, List.foldl_append, hhigh]
    simp only [List.foldl_cons, List.foldl_nil, UInt8.toNat_ofNat']
    omega

/-! ## Bytes -/

theorem takeBytes_append (bytes rest : Bytes) : takeBytes bytes.length (bytes ++ rest) = some (bytes, rest) := by
  simp [takeBytes]

theorem readBytes_append (bytes rest : Bytes) : readBytes bytes.length (bytes ++ rest) = .ok (bytes, rest) := by
  rw [readBytes, takeBytes_append]

theorem takeBytes_short {n : Nat} {input : Bytes} (h : input.length < n) : takeBytes n input = none := by
  have hne : ¬ (input.take n).length = n := by
    rw [List.length_take]
    omega
  simp only [takeBytes, if_neg hne]

/-- A proper part of some bytes is shorter. -/
theorem length_lt_of_part {pre bytes : Bytes} (h : pre <+: bytes) (hne : pre ≠ bytes) : pre.length < bytes.length :=
  Nat.lt_of_le_of_ne h.length_le fun hlen => hne (h.eq_of_length hlen)

/-! ## Heads -/

/-- What follows the first byte of a head for a number of 64 bits, and how its five low bits tell. -/
structure HeadForm (n info : Nat) (behind : Bytes) (argument : Argument) : Prop where
  low : info < 32
  width : argumentWidth? info = some behind.length
  kind : (if info < 24 then .short info else if info = 31 then .indefinite else .long behind) = argument
  value : argument.value? = some n

theorem exists_headForm {n : Nat} (hn : n < 0x10000000000000000) :
    ∃ info behind argument, HeadForm n info behind argument ∧
      ∀ major, head major n = UInt8.ofNat (major * 32 + info) :: behind := by
  have long {width : Nat} (hfit : n < capacity width) :
      (Argument.long (bigEndian width n)).value? = some n := congrArg some (natOfBytes_bigEndian width n hfit)
  by_cases h1 : n < 24
  · refine ⟨n, [], .short n, ⟨by omega, ?_, if_pos h1, rfl⟩, fun major => if_pos h1⟩
    rw [argumentWidth?, if_pos h1]
    rfl
  by_cases h2 : n < 0x100
  · refine ⟨24, bigEndian 1 n, _, ⟨by omega, ?_, rfl, long h2⟩, fun major => ?_⟩
    · rw [length_bigEndian]; rfl
    · rw [head, if_neg h1, if_pos h2]
  by_cases h3 : n < 0x10000
  · refine ⟨25, bigEndian 2 n, _, ⟨by omega, ?_, rfl, long h3⟩, fun major => ?_⟩
    · rw [length_bigEndian]; rfl
    · rw [head, if_neg h1, if_neg h2, if_pos h3]
  by_cases h4 : n < 0x100000000
  · refine ⟨26, bigEndian 4 n, _, ⟨by omega, ?_, rfl, long h4⟩, fun major => ?_⟩
    · rw [length_bigEndian]; rfl
    · rw [head, if_neg h1, if_neg h2, if_neg h3, if_pos h4]
  · refine ⟨27, bigEndian 8 n, _, ⟨by omega, ?_, rfl, long hn⟩, fun major => ?_⟩
    · rw [length_bigEndian]; rfl
    · rw [head, if_neg h1, if_neg h2, if_neg h3, if_neg h4]

theorem head_ne_nil (major n : Nat) : head major n ≠ [] := by
  unfold head
  split
  · simp
  · split
    · simp
    · split
      · simp
      · split <;> simp

variable {major n : Nat} {kind : Option Nat → Head}

/-- A head is read back, whatever follows it. -/
theorem readHead_head (hmajor : major < 8) (hkind : ∀ a, Head.of? major a = some (kind a.value?))
    (hn : n < 0x10000000000000000) (rest : Bytes) : readHead (head major n ++ rest) = .ok (kind (some n), rest) := by
  obtain ⟨info, behind, argument, form, hhead⟩ := exists_headForm hn
  have hlow := form.low
  have hbyte : (UInt8.ofNat (major * 32 + info)).toNat = major * 32 + info := by
    rw [UInt8.toNat_ofNat']
    omega
  have hinfo : (major * 32 + info) % 32 = info := by omega
  have hdiv : (major * 32 + info) / 32 = major := by omega
  rw [hhead, List.cons_append, readHead]
  simp only [hbyte, hinfo, hdiv, form.width, readBytes_append, form.kind, hkind, form.value]

/-- A part of a head is no head. -/
theorem readHead_part (hn : n < 0x10000000000000000) {pre : Bytes} (hpre : pre <+: head major n)
    (hne : pre ≠ head major n) : readHead pre = .error .endOfInput := by
  obtain ⟨info, behind, argument, form, hhead⟩ := exists_headForm hn
  have hlow := form.low
  cases pre with
  | nil => rfl
  | cons b pre =>
    rw [hhead, List.cons_prefix_cons] at hpre
    obtain ⟨rfl, hpre⟩ := hpre
    have hshort : pre.length < behind.length := length_lt_of_part hpre fun heq => hne (by rw [hhead, heq])
    have hinfo : (UInt8.ofNat (major * 32 + info)).toNat % 32 = info := by
      rw [UInt8.toNat_ofNat']
      omega
    rw [readHead]
    simp only [hinfo, form.width, readBytes, takeBytes_short hshort]

end Bundler.Cbor
