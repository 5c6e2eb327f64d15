import Bundler.Cbor.Reader
import Bundler.Proofs.Cbor.Head
import Bundler.Proofs.Text.Utf8
/-!
# Readers and what they take

A reader `Takes` some bytes for a value when it reads the value from them, whatever follows, and
fails on every proper part of them. Texts, arrays and members of records are taken as they are
written, so what was written is read back, and what was written in part is refused.
-/

namespace Bundler.Cbor

variable {α β : Type}

/-- A reader reads the value from the bytes, whatever follows, and nothing from a part of them. -/
structure Takes (read : Reader α) (bytes : Bytes) (value : α) : Prop where
  whole : ∀ fuel rest, bytes.length < fuel → read fuel (bytes ++ rest) = .ok (value, rest)
  part : ∀ fuel pre, pre.length < fuel → pre <+: bytes → pre ≠ bytes → ∃ stop, read fuel pre = .error stop

/-- A proper part of two pieces ends within the first or within the second. -/
theorem prefix_append_cases {pre a b : Bytes} (h : pre <+: a ++ b) (hne : pre ≠ a ++ b) :
    pre <+: a ∧ pre ≠ a ∨ ∃ more, pre = a ++ more ∧ more <+: b ∧ more ≠ b := by
  by_cases hlen : pre.length < a.length
  · refine .inl ⟨List.prefix_of_prefix_length_le h (List.prefix_append a b) (Nat.le_of_lt hlen), ?_⟩
    rintro rfl
    exact Nat.lt_irrefl _ hlen
  · obtain ⟨more, rfl⟩ := List.prefix_of_prefix_length_le (List.prefix_append a b) h (Nat.le_of_not_lt hlen)
    refine .inr ⟨more, rfl, (List.prefix_append_right_inj a).1 h, ?_⟩
    rintro rfl
    exact hne rfl

/-! ## Heads -/

section Heads

variable {major n : Nat}

/-- The head of an item that is no tag is read, whatever follows it. -/
theorem readUntagged_head (kind : Option Nat → Head) (hmajor : major < 8)
    (hkind : ∀ a, Head.of? major a = some (kind a.value?))
    (htag : ∀ m, kind (some n) ≠ .tag m) (hn : n < wordCount) {fuel : Nat} (hfuel : 0 < fuel) (rest : Bytes) :
    readUntagged fuel (head major n ++ rest) = .ok (kind (some n), rest) := by
  obtain ⟨fuel, rfl⟩ := Nat.exists_eq_add_one.2 hfuel
  rw [readUntagged, readHead_head hmajor hkind hn]
  split
  next heq => cases heq
  next m _ heq => exact absurd (congrArg Prod.fst (Except.ok.inj heq)) (htag m)
  next heq => exact heq.symm

theorem readUntagged_part (hn : n < wordCount) {fuel : Nat} {pre : Bytes} (hpre : pre <+: head major n)
    (hne : pre ≠ head major n) : readUntagged fuel pre = .error .endOfInput := by
  cases fuel with
  | zero => rfl
  | succ fuel => rw [readUntagged, readHead_part hn hpre hne]

end Heads

/-! ## Texts -/

theorem readPiece_append (width : Nat) (start : Bytes) (s : String) (rest : Bytes) :
    readPiece width start (Utf8.encode s).length (Utf8.encode s ++ rest) = .ok (s, rest) := by
  rw [readPiece, takeBytes_append]
  dsimp only
  rw [Utf8.decode?_encode]

theorem readPiece_part (width : Nat) (start : Bytes) {n : Nat} {pre : Bytes} (h : pre.length < n) :
    ∃ stop, readPiece width start n pre = .error stop := by
  rw [readPiece, takeBytes_short h]
  dsimp only
  split <;> exact ⟨_, rfl⟩

theorem text_ne_nil (s : String) : text s ≠ [] := by
  simp [text, head_ne_nil]

/-- A text is taken as it is written. -/
theorem takes_string {s : String} (h : (Utf8.encode s).length < wordCount) : Takes string (text s) s where
  whole fuel rest hfuel := by
    rw [text, List.append_assoc, string,
      readUntagged_head .text (by decide) (fun _ => rfl) nofun h (Nat.zero_lt_of_lt hfuel)]
    exact readPiece_append ..
  part fuel pre hfuel hpre hne := by
    rcases prefix_append_cases hpre hne with ⟨hhead, hne⟩ | ⟨more, rfl, hmore, hne⟩
    · exact ⟨_, by rw [string, readUntagged_part h hhead hne]⟩
    · rw [string, readUntagged_head .text (by decide) (fun _ => rfl) nofun h (Nat.zero_lt_of_lt hfuel)]
      exact readPiece_part _ _ (length_lt_of_part hmore hne)

/-! ## Arrays -/

section Arrays

variable {read : Reader α} {write : α → Bytes} {items : List α}

theorem elements_succ (fuel n : Nat) (done : List α) (input : Bytes) :
    elements read (fuel + 1) (some (n + 1)) done input =
      match read fuel input with
      | .error s => .error s
      | .ok (item, rest) => elements read fuel (some n) (item :: done) rest := rfl

theorem elements_append (h : ∀ a ∈ items, Takes read (write a) a ∧ write a ≠ []) (fuel : Nat) (done : List α)
    (rest : Bytes) (hfuel : (items.flatMap write).length + 1 < fuel) :
    elements read fuel (some items.length) done (items.flatMap write ++ rest) = .ok (done.reverse ++ items, rest) := by
  obtain ⟨fuel, rfl⟩ := Nat.exists_eq_add_one.2 (Nat.zero_lt_of_lt hfuel)
  induction items generalizing fuel done with
  | nil => simp [elements]
  | cons a items ih =>
    obtain ⟨ha, hne⟩ := h a List.mem_cons_self
    have hpos := List.length_pos_iff.2 hne
    rw [List.flatMap_cons, List.length_append] at hfuel
    obtain ⟨fuel, rfl⟩ := Nat.exists_eq_add_one.2 (show 0 < fuel by omega)
    rw [List.flatMap_cons, List.append_assoc, List.length_cons, elements_succ, ha.whole _ _ (by omega)]
    dsimp only
    rw [ih (fun x hx => h x (List.mem_cons_of_mem _ hx)) (a :: done) fuel (by omega), List.reverse_cons,
      List.append_assoc, List.singleton_append]

theorem elements_part (h : ∀ a ∈ items, Takes read (write a) a ∧ write a ≠ [])
    (fuel : Nat) (done : List α) {pre : Bytes}
    (hfuel : pre.length + 1 < fuel) (hpre : pre <+: items.flatMap write) (hne : pre ≠ items.flatMap write) :
    ∃ stop, elements read fuel (some items.length) done pre = .error stop := by
  induction items generalizing fuel done pre with
  | nil => exact absurd (List.prefix_nil.1 hpre) hne
  | cons a items ih =>
    obtain ⟨fuel, rfl⟩ := Nat.exists_eq_add_one.2 (Nat.zero_lt_of_lt hfuel)
    obtain ⟨ha, hnil⟩ := h a List.mem_cons_self
    have hpos := List.length_pos_iff.2 hnil
    rw [List.length_cons, elements_succ]
    -- the input ends within this element or after it
    rcases prefix_append_cases hpre hne with ⟨hpre, hne⟩ | ⟨more, rfl, hmore, hne⟩
    · obtain ⟨stop, hstop⟩ := ha.part fuel pre (by omega) hpre hne
      exact ⟨stop, by rw [hstop]⟩
    · rw [List.length_append] at hfuel
      rw [ha.whole fuel more (by omega)]
      exact ih (fun x hx => h x (List.mem_cons_of_mem _ hx)) fuel (a :: done) (by omega) hmore hne

/-- An array is taken as it is written. -/
theorem takes_list {expected : String} (h : ∀ a ∈ items, Takes read (write a) a ∧ write a ≠ [])
    (hlen : items.length < wordCount) : Takes (list expected read) (array (items.map write)) items := by
  have hwrite : array (items.map write) = head 4 items.length ++ items.flatMap write := by
    rw [array, List.length_map, List.flatMap]
  rw [hwrite]
  have hpos := List.length_pos_iff.2 (head_ne_nil 4 items.length)
  constructor
  · intro fuel rest hfuel
    rw [List.length_append] at hfuel
    rw [list, List.append_assoc, readUntagged_head .array (by decide) (fun _ => rfl) nofun hlen (by omega)]
    dsimp only
    rw [elements_append h _ _ _ (by omega), List.reverse_nil, List.nil_append]
  · intro fuel pre hfuel hpre hne
    rcases prefix_append_cases hpre hne with ⟨hhead, hne⟩ | ⟨more, rfl, hmore, hne⟩
    · exact ⟨_, by rw [list, readUntagged_part hlen hhead hne]⟩
    · rw [List.length_append] at hfuel
      rw [list, readUntagged_head .array (by decide) (fun _ => rfl) nofun hlen (by omega)]
      exact elements_part h fuel [] (by omega) hmore hne

end Arrays

/-! ## Records -/

section Members

variable {s : Shape α} {name : String} {read : α → Reader α} {seen : List String} {value value' : α}

/-- A key is read, whatever follows it. -/
theorem readKey_text (h : (Utf8.encode name).length ≤ blockSize) {fuel : Nat} (hfuel : 0 < fuel) (known : Bool)
    (rest : Bytes) : readKey fuel known (text name ++ rest) = .ok (Utf8.encode name, rest) := by
  obtain ⟨fuel, rfl⟩ := Nat.exists_eq_add_one.2 hfuel
  have hlen : (Utf8.encode name).length < wordCount := Nat.lt_of_le_of_lt h (by decide)
  rw [text, List.append_assoc, readKey, readHead_head (by decide) (fun _ => rfl) hlen]
  dsimp only
  rw [if_neg (Nat.not_lt.2 h), readBytes_append]
  dsimp only
  rw [Utf8.decode?_encode, Option.isSome_some, if_pos rfl]

theorem readKey_part (h : (Utf8.encode name).length ≤ blockSize) (fuel : Nat) (known : Bool) {pre : Bytes}
    (hpre : pre <+: text name) (hne : pre ≠ text name) : ∃ stop, readKey fuel known pre = .error stop := by
  have hlen : (Utf8.encode name).length < wordCount := Nat.lt_of_le_of_lt h (by decide)
  cases fuel with
  | zero => exact ⟨_, rfl⟩
  | succ fuel =>
    rcases prefix_append_cases hpre hne with ⟨hhead, hne⟩ | ⟨more, rfl, hmore, hne⟩
    · exact ⟨_, by rw [readKey, readHead_part hlen hhead hne]⟩
    · rw [readKey, readHead_head (by decide) (fun _ => rfl) hlen]
      dsimp only
      rw [if_neg (Nat.not_lt.2 h), readBytes, takeBytes_short (length_lt_of_part hmore hne)]
      exact ⟨_, rfl⟩

/-- The members that are left, as many as the second argument says. -/
def membersLeft (s : Shape α) (n : Nat) (seen : List String) (value : α) : Reader α :=
  fun fuel => s.members fuel (some n) seen value

theorem membersLeft_succ (fuel n : Nat) (input : Bytes) :
    membersLeft s (n + 1) seen value (fuel + 1) input =
      match readKey fuel false input with
      | .error stop => .error stop
      | .ok (key, rest) =>
        match s.find? key with
        | none =>
          match skipItem fuel rest with
          | .error stop => .error stop
          | .ok ((), rest) => membersLeft s n seen value fuel rest
        | some (name, read) =>
          if seen.contains name then .error (.refused (.repeatedField name))
          else
            match read value fuel rest with
            | .error stop => .error stop
            | .ok (value, rest) => membersLeft s n (name :: seen) value fuel rest := rfl

/-- When all fields were seen, nothing more is taken. -/
theorem takes_membersLeft_zero (h : ∀ field ∈ s.fields, field.1 ∈ seen) :
    Takes (membersLeft s 0 seen value) [] value where
  whole fuel rest hfuel := by
    obtain ⟨fuel, rfl⟩ := Nat.exists_eq_add_one.2 hfuel
    rw [membersLeft, Shape.members]
    dsimp only
    rw [List.find?_eq_none.2 fun field hfield => by simpa using h field hfield]
    rfl
  part _ _ _ hpre hne := absurd (List.prefix_nil.1 hpre) hne

/-- A field is taken as it is written, and the members behind it. -/
theorem takes_membersLeft_succ {n : Nat} {bytes more : Bytes} {answer : α}
    (hkey : (Utf8.encode name).length ≤ blockSize) (hfind : s.find? (Utf8.encode name) = some (name, read))
    (hseen : name ∉ seen) (hread : Takes (read value) bytes value')
    (hmore : Takes (membersLeft s n (name :: seen) value') more answer) :
    Takes (membersLeft s (n + 1) seen value) (text name ++ (bytes ++ more)) answer := by
  have hpos := List.length_pos_iff.2 (text_ne_nil name)
  have hseen' : seen.contains name = false := by simpa using hseen
  -- the key is read and its field found
  have hstep {fuel : Nat} (hfuel : 0 < fuel) (input : Bytes) :
      membersLeft s (n + 1) seen value (fuel + 1) (text name ++ input) =
        match read value fuel input with
        | .error stop => .error stop
        | .ok (value, rest) => membersLeft s n (name :: seen) value fuel rest := by
    rw [membersLeft_succ, readKey_text hkey hfuel]
    dsimp only
    rw [hfind]
    simp only [hseen', Bool.false_eq_true, if_false]
  constructor
  · intro fuel rest hfuel
    obtain ⟨fuel, rfl⟩ := Nat.exists_eq_add_one.2 (Nat.zero_lt_of_lt hfuel)
    simp only [List.length_append] at hfuel
    rw [List.append_assoc, List.append_assoc, hstep (by omega), hread.whole _ _ (by omega)]
    exact hmore.whole _ _ (by omega)
  · intro fuel pre hfuel hpre hne
    obtain ⟨fuel, rfl⟩ := Nat.exists_eq_add_one.2 (Nat.zero_lt_of_lt hfuel)
    rcases prefix_append_cases hpre hne with ⟨hpre, hne⟩ | ⟨behind, rfl, hbehind, hne⟩
    · obtain ⟨stop, hstop⟩ := readKey_part hkey fuel false hpre hne
      exact ⟨stop, by rw [membersLeft_succ, hstop]⟩
    · rw [List.length_append] at hfuel
      rw [hstep (by omega)]
      rcases prefix_append_cases hbehind hne with ⟨hpre, hne⟩ | ⟨rest, rfl, hrest, hne⟩
      · obtain ⟨stop, hstop⟩ := hread.part fuel behind (by omega) hpre hne
        exact ⟨stop, by rw [hstop]⟩
      · rw [List.length_append] at hfuel
        rw [hread.whole fuel rest (by omega)]
        exact hmore.part fuel rest (by omega) hrest hne

/-- A record is taken as it is written: the number of its members, and the members. -/
theorem takes_read {n : Nat} {bytes : Bytes} {answer : α} (hn : n < wordCount)
    (h : Takes (membersLeft s n [] s.start) bytes answer) : Takes s.read (head 5 n ++ bytes) answer := by
  have hpos := List.length_pos_iff.2 (head_ne_nil 5 n)
  constructor
  · intro fuel rest hfuel
    rw [List.length_append] at hfuel
    rw [Shape.read, List.append_assoc, readUntagged_head .map (by decide) (fun _ => rfl) nofun hn (by omega)]
    exact h.whole fuel rest (by omega)
  · intro fuel pre hfuel hpre hne
    rcases prefix_append_cases hpre hne with ⟨hhead, hne⟩ | ⟨more, rfl, hmore, hne⟩
    · exact ⟨_, by rw [Shape.read, readUntagged_part hn hhead hne]⟩
    · rw [List.length_append] at hfuel
      rw [Shape.read, readUntagged_head .map (by decide) (fun _ => rfl) nofun hn (by omega)]
      exact h.part fuel more (by omega) hmore hne

/-- What a reader takes is put into a value. -/
theorem Takes.into {read : Reader β} {bytes : Bytes} {part : β} (h : Takes read bytes part) (put : α → β → α)
    (value : α) :
    Takes (read.into put value) bytes (put value part) where
  whole fuel rest hfuel := by rw [Reader.into, h.whole fuel rest hfuel]; rfl
  part fuel pre hfuel hpre hne := by
    obtain ⟨stop, hstop⟩ := h.part fuel pre hfuel hpre hne
    exact ⟨stop, by rw [Reader.into, hstop]; rfl⟩

end Members

/-! ## Whole inputs -/

theorem Takes.decode {read : Reader α} {bytes : Bytes} {value : α} (h : Takes read bytes value) (rest : Bytes) :
    read.decode (bytes ++ rest) = .ok value := by
  rw [Reader.decode, h.whole _ _ (by rw [List.length_append]; omega)]

theorem Takes.decode_part {read : Reader α} {bytes pre : Bytes} {value : α} (h : Takes read bytes value)
    (hpre : pre <+: bytes) (hne : pre ≠ bytes) : ∃ e, read.decode pre = .error e := by
  obtain ⟨stop, hstop⟩ := h.part (2 * pre.length + 3) pre (by omega) hpre hne
  exact ⟨_, by rw [Reader.decode, hstop]⟩

end Bundler.Cbor
