import Bundler.Digest
/-!
# Digests in hexadecimal

A digest has 32 bytes (`length_hash`), so it is written as 64 lowercase digits (`isHex_toHex`), and
no other digest is written so (`toHex_injective`).
-/

namespace Bundler

namespace Hex

/-- Whether a character is a lowercase hexadecimal digit. -/
def isDigit (c : Char) : Bool := "0123456789abcdef".toList.contains c

theorem digit_injective : ∀ n m : Fin 16, digit n = digit m → n = m := by decide

theorem isDigit_digit : ∀ n : Fin 16, isDigit (digit n) = true := by decide

theorem high_lt (b : UInt8) : b.toNat / 16 < 16 := by
  have := b.toNat_lt
  omega

theorem ofByte_injective {a b : UInt8} (h : ofByte a = ofByte b) : a = b := by
  simp only [ofByte, List.cons.injEq, and_true] at h
  have high := digit_injective ⟨a.toNat / 16, high_lt a⟩ ⟨b.toNat / 16, high_lt b⟩ h.1
  have low := digit_injective ⟨a.toNat % 16, Nat.mod_lt _ (by decide)⟩ ⟨b.toNat % 16, Nat.mod_lt _ (by decide)⟩ h.2
  simp only [Fin.mk.injEq] at high low
  exact UInt8.toNat_inj.1 (by omega)

theorem toList_ofBytes (bytes : Bytes) : (ofBytes bytes).toList = bytes.flatMap ofByte := String.toList_ofList

theorem length_ofBytes (bytes : Bytes) : (ofBytes bytes).toList.length = 2 * bytes.length := by
  rw [toList_ofBytes]
  induction bytes with
  | nil => rfl
  | cons b bytes ih =>
    simp only [List.flatMap_cons, List.length_append, ih, ofByte, List.length_cons, List.length_nil]
    omega

theorem isDigit_of_mem {bytes : Bytes} {c : Char} (h : c ∈ (ofBytes bytes).toList) : isDigit c = true := by
  rw [toList_ofBytes, List.mem_flatMap] at h
  obtain ⟨b, -, hc⟩ := h
  simp only [ofByte, List.mem_cons, List.not_mem_nil, or_false] at hc
  rcases hc with rfl | rfl
  · exact isDigit_digit ⟨b.toNat / 16, high_lt b⟩
  · exact isDigit_digit ⟨b.toNat % 16, Nat.mod_lt _ (by decide)⟩

theorem flatMap_ofByte_injective {a b : Bytes} (h : a.flatMap ofByte = b.flatMap ofByte) : a = b := by
  induction a generalizing b with
  | nil =>
    cases b with
    | nil => rfl
    | cons y b => simp [ofByte] at h
  | cons x a ih =>
    cases b with
    | nil => simp [ofByte] at h
    | cons y b =>
      have hlen : (ofByte x).length = (ofByte y).length := rfl
      rw [List.flatMap_cons, List.flatMap_cons] at h
      obtain ⟨hxy, hab⟩ := List.append_inj h hlen
      rw [ofByte_injective hxy, ih hab]

theorem ofBytes_injective {a b : Bytes} (h : ofBytes a = ofBytes b) : a = b := by
  have h := congrArg String.toList h
  rw [toList_ofBytes, toList_ofBytes] at h
  exact flatMap_ofByte_injective h

end Hex

namespace Digest

/-- The form in which digests are written: 64 lowercase digits. -/
def IsHex (s : String) : Prop := s.toList.length = 64 ∧ ∀ c ∈ s.toList, Hex.isDigit c = true

/-- 64 hexadecimal digits, in either case. -/
def IsHexText (s : String) : Prop := s.toList.length = 64 ∧ ∀ c ∈ s.toList, Hex.isDigit c.toLower = true

theorem IsHex.text {s : String} (h : IsHex s) : IsHexText s := by
  have lower : "0123456789abcdef".toList.all (fun c => Hex.isDigit c.toLower) = true := by decide
  exact ⟨h.1, fun c hc => List.all_eq_true.1 lower c (List.contains_iff_mem.1 (h.2 c hc))⟩

/-! ## The length of a digest -/

theorem pieces_ne_nil {α : Type} (size cuts : Nat) (l : List α) : pieces size cuts l ≠ [] := by
  cases cuts with
  | zero => simp [pieces]
  | succ cuts =>
    unfold pieces
    split <;> simp

theorem pairUp_ne_nil {nodes : List Node} (h : nodes ≠ []) : pairUp nodes ≠ [] := by
  unfold pairUp
  split
  · simp
  · exact h

theorem rootNode_isSome (levels : Nat) {nodes : List Node} (h : nodes ≠ []) : (rootNode levels nodes).isSome := by
  induction levels generalizing nodes with
  | zero =>
    rcases nodes with _ | ⟨n, _ | ⟨m, rest⟩⟩
    · exact absurd rfl h
    · rfl
    · rfl
  | succ levels ih =>
    rcases nodes with _ | ⟨n, _ | ⟨m, rest⟩⟩
    · exact absurd rfl h
    · rfl
    · exact ih (pairUp_ne_nil h)

theorem length_compress (n : Node) (extra : UInt32) : (n.compress extra).length = 8 := rfl

theorem length_flatMap_bytesOfWord (words : List UInt32) : (words.flatMap bytesOfWord).length = 4 * words.length := by
  induction words with
  | nil => rfl
  | cons w words ih =>
    rw [List.flatMap_cons, List.length_append, ih, List.length_cons, bytesOfWord, List.length_cons]
    simp only [List.length_cons, List.length_nil]
    omega

theorem length_hash (bytes : Bytes) : (hash bytes).bytes.length = 32 := by
  have hne : (pieces 1024 bytes.length bytes).mapIdx chunkNode ≠ [] := by
    rw [Ne, List.mapIdx_eq_nil_iff]
    exact pieces_ne_nil _ _ _
  have hsome := rootNode_isSome (pieces 1024 bytes.length bytes).length hne
  obtain ⟨node, hnode⟩ := Option.isSome_iff_exists.1 hsome
  unfold hash
  dsimp only
  rw [hnode]
  dsimp only
  rw [length_flatMap_bytesOfWord, length_compress]

/-! ## Its text -/

theorem isHex_toHex (bytes : Bytes) : IsHex (hash bytes).toHex := by
  refine ⟨?_, fun c hc => Hex.isDigit_of_mem hc⟩
  rw [toHex, Hex.length_ofBytes, length_hash]

theorem toHex_injective {d e : Digest} (h : d.toHex = e.toHex) : d = e := by
  cases d
  cases e
  exact congrArg Digest.mk (Hex.ofBytes_injective h)

end Digest
end Bundler
