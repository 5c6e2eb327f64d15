import Bundler.Json.Shape
import Bundler.Json.Text
import Bundler.Proofs.Text.Utf8
/-!
# Reading JSON as it is written

A reader `Takes` some bytes for a value when it reads the value from them, whatever follows. Quoted texts, and
arrays and objects with one element a line, are taken as they are written (`takes_text`, `takes_list`, `takes_map`,
`takes_record`), so what was written is read back (`Takes.decode`).
-/

namespace Bundler.Json

variable {α β : Type}

/-! ## Blanks -/

/-- Bytes that are skipped. -/
def Blank (gap : Bytes) : Prop := ∀ b ∈ gap, isBlank b = true

theorem blank_nil : Blank [] := fun _ hb => absurd hb List.not_mem_nil

theorem skipBlank_append {gap : Bytes} (h : Blank gap) (input : Bytes) : skipBlank (gap ++ input) = skipBlank input :=
  List.dropWhile_append_of_pos h

theorem skipBlank_cons {b : UInt8} (h : isBlank b = false) (input : Bytes) : skipBlank (b :: input) = b :: input := by
  rw [skipBlank, List.dropWhile_cons_of_neg (by rw [h]; exact Bool.false_ne_true)]

theorem skipBlank_append_cons {gap : Bytes} {b : UInt8} (hgap : Blank gap) (h : isBlank b = false) (input : Bytes) :
    skipBlank (gap ++ b :: input) = b :: input := by
  rw [skipBlank_append hgap, skipBlank_cons h]

/-- A new line and the spaces behind it are skipped. -/
theorem blank_line (level : Nat) : Blank (Utf8.encode (line level)) := by
  intro b hb
  rw [line, Utf8.encode_append, List.mem_append] at hb
  rcases hb with hb | hb
  · rw [List.mem_singleton.1 (show b ∈ ([0x0A] : Bytes) from hb)]
    rfl
  · obtain ⟨c, hc, hb⟩ := List.mem_flatMap.1 hb
    rw [String.toList_ofList] at hc
    obtain rfl := List.eq_of_mem_replicate hc
    rw [List.mem_singleton.1 (show b ∈ ([0x20] : Bytes) from hb)]
    rfl

/-! ## Readers -/

/-- A reader reads the value from the bytes, whatever follows, and whatever blanks come first. -/
def Takes (read : Reader α) (bytes : Bytes) (value : α) : Prop :=
  ∀ fuel gap rest, Blank gap → bytes.length ≤ fuel → read fuel (gap ++ (bytes ++ rest)) = .ok (value, rest)

theorem Takes.front {read : Reader α} {bytes : Bytes} {value : α} (h : Takes read bytes value) {fuel : Nat}
    (hfuel : bytes.length ≤ fuel) (rest : Bytes) : read fuel (bytes ++ rest) = .ok (value, rest) :=
  h fuel [] rest blank_nil hfuel

theorem Takes.into {read : Reader β} {bytes : Bytes} {part : β} (h : Takes read bytes part) (put : α → β → α)
    (value : α) : Takes (read.into put value) bytes (put value part) := by
  intro fuel gap rest hgap hfuel
  rw [Reader.into, h fuel gap rest hgap hfuel]
  rfl

theorem Takes.map {read : Reader α} {bytes : Bytes} {value : α} (h : Takes read bytes value) (f : α → β) :
    Takes (read.map f) bytes (f value) := by
  intro fuel gap rest hgap hfuel
  rw [Reader.map, h fuel gap rest hgap hfuel]
  rfl

/-- What was written alone is read back. -/
theorem Takes.decode {read : Reader α} {bytes : Bytes} {value : α} (h : Takes read bytes value) :
    read.decode bytes = .ok value := by
  have hfuel : bytes.length ≤ 2 * bytes.length + 2 := by omega
  have hread := h.front hfuel []
  rw [List.append_nil] at hread
  rw [Reader.decode, Reader.whole, hread]
  rfl

/-! ## Texts -/

theorem encode_ofList (cs : List Char) : Utf8.encode (String.ofList cs) = cs.flatMap Utf8.encodeChar := by
  rw [Utf8.encode, String.toList_ofList]

/-- A byte that needs no escape is read as it is. -/
theorem readChars_plain {b : UInt8} (read rest : Bytes) (hcontrol : ¬ b < 0x20) (hquote : b ≠ 0x22)
    (hslash : b ≠ 0x5C) : readChars none read (b :: rest) = readChars none (b :: read) rest := by
  rw [readChars]
  · rw [if_neg hcontrol]
  · exact hquote
  · intro a b' c d tail heq
    exact absurd heq hslash
  · intro heq
    exact absurd heq hslash
  · intro b' tail heq
    exact absurd heq hslash

theorem readChars_plain_append {bytes : Bytes} (read rest : Bytes)
    (h : ∀ b ∈ bytes, ¬ b < 0x20 ∧ b ≠ 0x22 ∧ b ≠ 0x5C) :
    readChars none read (bytes ++ rest) = readChars none (bytes.reverse ++ read) rest := by
  induction bytes generalizing read with
  | nil => rfl
  | cons b bytes ih =>
    rw [List.forall_mem_cons] at h
    obtain ⟨⟨hcontrol, hquote, hslash⟩, hrest⟩ := h
    rw [List.cons_append, readChars_plain read _ hcontrol hquote hslash, ih (b :: read) hrest, List.reverse_cons,
      List.append_assoc, List.singleton_append]

/-- Every control character is the number of the two digits that it is escaped with. -/
theorem unit?_control : ∀ n < 0x20, ∃ c d : UInt8,
    ['\\', 'u', '0', '0', Hex.digit (n / 16), Hex.digit (n % 16)].flatMap Utf8.encodeChar =
      [0x5C, 0x75, 0x30, 0x30, c, d] ∧ unit? 0x30 0x30 c d = some n := by
  have hdigits : ∀ n < 0x20, ['\\', 'u', '0', '0', Hex.digit (n / 16), Hex.digit (n % 16)].flatMap Utf8.encodeChar =
      [0x5C, 0x75, 0x30, 0x30, UInt8.ofNat (Hex.digit (n / 16)).toNat, UInt8.ofNat (Hex.digit (n % 16)).toNat] ∧
      unit? 0x30 0x30 (UInt8.ofNat (Hex.digit (n / 16)).toNat) (UInt8.ofNat (Hex.digit (n % 16)).toNat) = some n := by
    decide
  exact fun n hn => ⟨_, _, hdigits n hn⟩

/-- A character is read from the bytes that it is written with. -/
theorem readChars_escape (c : Char) (read rest : Bytes) :
    readChars none read ((escape c).flatMap Utf8.encodeChar ++ rest) =
      readChars none ((Utf8.encodeChar c).reverse ++ read) rest := by
  have hchar {n : Nat} (h : c.toNat = n) : c = Char.ofNat n := by rw [← h, Char.ofNat_toNat]
  unfold escape
  split
  · next heq => subst heq; rfl
  next hquote =>
  split
  · next heq => subst heq; rfl
  next hslash =>
  split
  · next heq => rw [hchar heq]; rfl
  split
  · next heq => rw [hchar heq]; rfl
  split
  · next heq => rw [hchar heq]; rfl
  split
  · next heq => rw [hchar heq]; rfl
  split
  · next heq => rw [hchar heq]; rfl
  split
  · next hcontrol =>
    obtain ⟨d, e, hbytes, hunit⟩ := unit?_control c.toNat hcontrol
    have htrailing : isTrailing c.toNat = false := by simp [isTrailing]; omega
    have hleading : isLeading c.toNat = false := by simp [isLeading]; omega
    rw [hbytes]
    simp only [List.cons_append, List.nil_append]
    rw [readChars, hunit]
    dsimp only
    rw [htrailing, hleading, if_neg Bool.false_ne_true, if_neg Bool.false_ne_true, Char.ofNat_toNat]
  next hcontrol =>
  rw [List.flatMap_singleton]
  apply readChars_plain_append
  intro b hb
  have hvalue := Utf8.mem_encodeChar hb
  have hquote : c.toNat ≠ 0x22 := fun heq => hquote (hchar heq)
  have hslash : c.toNat ≠ 0x5C := fun heq => hslash (hchar heq)
  rw [UInt8.lt_iff_toNat_lt, ne_eq, ne_eq, ← UInt8.toNat_inj, ← UInt8.toNat_inj]
  exact ⟨show ¬ b.toNat < 0x20 by omega, show ¬ b.toNat = 0x22 by omega, show ¬ b.toNat = 0x5C by omega⟩

theorem readChars_escaped (cs : List Char) (read rest : Bytes) :
    readChars none read ((cs.flatMap escape).flatMap Utf8.encodeChar ++ rest) =
      readChars none ((cs.flatMap Utf8.encodeChar).reverse ++ read) rest := by
  induction cs generalizing read with
  | nil => rfl
  | cons c cs ih =>
    rw [List.flatMap_cons, List.flatMap_append, List.append_assoc, readChars_escape, ih, List.flatMap_cons,
      List.reverse_append, List.append_assoc]

/-- The bytes of a quoted text: the quotes, and what is read as the text between them. -/
theorem encode_quote (s : String) : Utf8.encode (quote s) =
    0x22 :: ((s.toList.flatMap escape).flatMap Utf8.encodeChar ++ [0x22]) := by
  rw [quote, encode_ofList, List.cons_append, List.flatMap_cons, List.flatMap_append]
  rfl

theorem readString_quote (s : String) (rest : Bytes) :
    readString ((s.toList.flatMap escape).flatMap Utf8.encodeChar ++ 0x22 :: rest) = .ok (s, rest) := by
  rw [readString, readChars_escaped, List.append_nil, readChars, List.reverse_reverse]
  rw [← encode_ofList, String.ofList_toList, Utf8.decode?_encode]

/-- A text is taken as it is quoted. -/
theorem takes_text (expected s : String) : Takes (text expected) (Utf8.encode (quote s)) s := by
  intro fuel gap rest hgap _
  rw [encode_quote, List.cons_append, List.append_assoc, text, skipBlank_append_cons hgap (by rfl)]
  exact readString_quote s rest

/-! ## Blocks -/

/-- The bytes of the further elements of a block. -/
def further (level : Nat) (items : List String) : Bytes :=
  items.flatMap fun item => 0x2C :: (Utf8.encode (line (level + 1)) ++ Utf8.encode item)

theorem further_cons (level : Nat) (item : String) (items : List String) : further level (item :: items) =
    0x2C :: (Utf8.encode (line (level + 1)) ++ (Utf8.encode item ++ further level items)) := by
  rw [further, List.flatMap_cons, List.cons_append, List.append_assoc]
  rfl

theorem encode_intercalate (first : String) (rest : List String) : Utf8.encode (",".intercalate (first :: rest)) =
    Utf8.encode first ++ rest.flatMap fun item => 0x2C :: Utf8.encode item := by
  induction rest generalizing first with
  | nil => simp
  | cons second rest ih =>
    rw [String.intercalate_cons_cons, Utf8.encode_append, Utf8.encode_append, ih, List.flatMap_cons, List.append_assoc]
    rfl

theorem encode_block (opening closing : String) (level : Nat) (first : String) (rest : List String) :
    Utf8.encode (block opening closing level (first :: rest)) = Utf8.encode opening ++
      (Utf8.encode (line (level + 1)) ++ (Utf8.encode first ++ (further level rest ++
        (Utf8.encode (line level) ++ Utf8.encode closing)))) := by
  rw [block, if_neg (List.cons_ne_nil _ _), List.map_cons]
  simp only [Utf8.encode_append, encode_intercalate, List.append_assoc, List.flatMap_map]
  rfl

/-! ## Arrays -/

/-- The bytes of an element do not begin as a blank or the end of an array. -/
def Begins (bytes : Bytes) : Prop := ∃ b more, bytes = b :: more ∧ isBlank b = false ∧ b ≠ 0x5D

theorem begins_quote (s : String) : Begins (Utf8.encode (quote s)) := ⟨0x22, _, encode_quote s, rfl, by decide⟩

section Arrays

variable {read : Reader α} {write : α → String} {items done : List α} {gap bytes : Bytes} {level : Nat}

theorem nextElement_end (first : Bool) (hgap : Blank gap) (rest : Bytes) :
    nextElement first (gap ++ 0x5D :: rest) = .ok none := by
  rw [nextElement, skipBlank_append_cons hgap (by rfl)]
  rfl

theorem nextElement_first (hgap : Blank gap) (h : Begins bytes) (rest : Bytes) :
    nextElement true (gap ++ (bytes ++ rest)) = .ok (some (bytes ++ rest)) := by
  obtain ⟨b, more, rfl, hblank, hend⟩ := h
  rw [nextElement, List.cons_append, skipBlank_append_cons hgap hblank]
  split
  · next heq => cases heq
  · next heq => exact absurd (List.cons.inj heq).1 hend
  · next heq => cases heq; rfl

theorem nextElement_further (hgap : Blank gap) (h : Begins bytes) (rest : Bytes) :
    nextElement false (0x2C :: (gap ++ (bytes ++ rest))) = .ok (some (bytes ++ rest)) := by
  obtain ⟨b, more, rfl, hblank, hend⟩ := h
  have hcomma : skipBlank (0x2C :: (gap ++ b :: (more ++ rest))) = 0x2C :: (gap ++ b :: (more ++ rest)) := rfl
  rw [List.cons_append, nextElement, hcomma]
  split
  · next heq => cases heq
  · next heq => exact absurd (List.cons.inj heq).1 (by decide)
  · next heq =>
    cases heq
    rw [if_neg Bool.false_ne_true, if_pos rfl, skipBlank_append_cons hgap hblank]
    split
    · next heq => cases heq
    · next heq => exact absurd (List.cons.inj heq).1 hend
    · rfl

theorem endArray_append (hgap : Blank gap) (rest : Bytes) : endArray (gap ++ 0x5D :: rest) = .ok rest := by
  rw [endArray, skipBlank_append_cons hgap (by rfl)]
  rfl

theorem elements_end (hgap : Blank gap) (fuel : Nat) (rest : Bytes) :
    elements read (fuel + 1) done (gap ++ 0x5D :: rest) = .ok (done.reverse, rest) := by
  rw [elements, nextElement_end _ hgap, endArray_append hgap]
  rfl

theorem elements_further (h : ∀ a ∈ items, Takes read (Utf8.encode (write a)) a ∧ Begins (Utf8.encode (write a)))
    (hdone : done ≠ []) (hgap : Blank gap) (fuel : Nat) (rest : Bytes)
    (hfuel : (further level (items.map write)).length < fuel) :
    elements read fuel done (further level (items.map write) ++ (gap ++ 0x5D :: rest)) =
      .ok (done.reverse ++ items, rest) := by
  obtain ⟨fuel, rfl⟩ := Nat.exists_eq_add_one.2 (Nat.zero_lt_of_lt hfuel)
  induction items generalizing fuel done with
  | nil =>
    rw [List.append_nil]
    exact elements_end hgap fuel rest
  | cons a items ih =>
    rw [List.forall_mem_cons] at h
    obtain ⟨⟨htakes, hbegins⟩, hrest⟩ := h
    rw [List.map_cons, further_cons] at hfuel ⊢
    simp only [List.length_cons, List.length_append] at hfuel
    obtain ⟨fuel, rfl⟩ := Nat.exists_eq_add_one.2 (show 0 < fuel by omega)
    have hfalse : done.isEmpty = false := by simpa using hdone
    simp only [List.cons_append, List.append_assoc]
    rw [elements, hfalse, nextElement_further (blank_line _) hbegins]
    dsimp only
    rw [htakes.front (by omega)]
    dsimp only
    rw [ih hrest (List.cons_ne_nil a done) fuel (by omega), List.reverse_cons, List.append_assoc,
      List.singleton_append]

/-- An array is taken as it is written. -/
theorem takes_list (h : ∀ a ∈ items, Takes read (Utf8.encode (write a)) a ∧ Begins (Utf8.encode (write a))) :
    Takes (list read) (Utf8.encode (prettyArray level (items.map write))) items := by
  intro fuel gap rest hgap hfuel
  cases items with
  | nil =>
    have hbytes : Utf8.encode (prettyArray level []) = [0x5B, 0x5D] := by
      rw [prettyArray, block, if_pos rfl, Utf8.encode_append]
      rfl
    rw [List.map_nil, hbytes] at hfuel ⊢
    obtain ⟨fuel, rfl⟩ := Nat.exists_eq_add_one.2 (Nat.lt_of_lt_of_le (Nat.zero_lt_succ 1) hfuel)
    rw [list, List.cons_append, skipBlank_append_cons hgap (by rfl)]
    exact elements_end blank_nil fuel rest
  | cons a items =>
    rw [List.forall_mem_cons] at h
    obtain ⟨⟨htakes, hbegins⟩, hrest⟩ := h
    have hopening : Utf8.encode "[" = [0x5B] := rfl
    have hclosing : Utf8.encode "]" = [0x5D] := rfl
    rw [prettyArray, List.map_cons, encode_block, hopening, hclosing] at hfuel ⊢
    simp only [List.length_append, List.length_singleton] at hfuel
    obtain ⟨fuel, rfl⟩ := Nat.exists_eq_add_one.2 (show 0 < fuel by omega)
    rw [list, List.append_assoc, List.singleton_append, skipBlank_append_cons hgap (by rfl)]
    simp only [List.append_assoc, List.singleton_append]
    rw [elements, List.isEmpty_nil, nextElement_first (blank_line _) hbegins]
    dsimp only
    rw [htakes.front (by omega)]
    dsimp only
    rw [elements_further hrest (List.cons_ne_nil a []) (blank_line _) fuel rest (by omega)]
    rfl

end Arrays

/-! ## Objects -/

/-- The bytes of a member of an object, behind the quote that its key begins with. -/
def memberTail (key value : String) : Bytes :=
  (key.toList.flatMap escape).flatMap Utf8.encodeChar ++ 0x22 :: 0x3A :: 0x20 :: Utf8.encode value

/-- The members of an object as they are written. -/
def memberTexts (write : α → String) (entries : List (String × α)) : List String :=
  entries.map fun (key, a) => quote key ++ ": " ++ write a

theorem encode_member (key value : String) :
    Utf8.encode (quote key ++ ": " ++ value) = 0x22 :: memberTail key value := by
  have hcolon : Utf8.encode ": " = [0x3A, 0x20] := rfl
  rw [Utf8.encode_append, Utf8.encode_append, encode_quote, hcolon, memberTail]
  simp only [List.cons_append, List.append_assoc, List.nil_append]

theorem further_memberTexts (write : α → String) (level : Nat) (key : String) (a : α) (entries : List (String × α)) :
    further level (memberTexts write ((key, a) :: entries)) =
      0x2C :: (Utf8.encode (line (level + 1)) ++
        (0x22 :: memberTail key (write a) ++ further level (memberTexts write entries))) := by
  rw [memberTexts, List.map_cons, further_cons, encode_member]
  rfl

theorem encode_prettyObject_cons (level : Nat) (key value : String) (members : List (String × String)) :
    Utf8.encode (prettyObject level ((key, value) :: members)) =
      0x7B :: (Utf8.encode (line (level + 1)) ++ 0x22 :: (memberTail key value ++
        (further level (memberTexts id members) ++ (Utf8.encode (line level) ++ [0x7D])))) := by
  rw [prettyObject, List.map_cons, encode_block, encode_member]
  rfl

section Objects

variable {read : Reader α} {write : α → String} {entries found : List (String × α)} {gap : Bytes} {level : Nat}

theorem nextKey_end (first : Bool) (hgap : Blank gap) (rest : Bytes) :
    nextKey first (gap ++ 0x7D :: rest) = .ok none := by
  rw [nextKey, skipBlank_append_cons hgap (by rfl)]
  rfl

theorem nextKey_first (hgap : Blank gap) (rest : Bytes) : nextKey true (gap ++ 0x22 :: rest) = .ok (some rest) := by
  rw [nextKey, skipBlank_append_cons hgap (by rfl)]
  rfl

theorem nextKey_further (hgap : Blank gap) (rest : Bytes) :
    nextKey false (0x2C :: (gap ++ 0x22 :: rest)) = .ok (some rest) := by
  have hcomma : isBlank 0x2C = false := rfl
  have hquote : isBlank 0x22 = false := rfl
  simp [nextKey, skipBlank_cons hcomma, skipBlank_append_cons hgap hquote]

theorem endObject_append (hgap : Blank gap) (rest : Bytes) : endObject (gap ++ 0x7D :: rest) = .ok rest := by
  rw [endObject, skipBlank_append_cons hgap (by rfl)]
  rfl

theorem readString_memberTail (key value : String) (rest : Bytes) :
    readString (memberTail key value ++ rest) = .ok (key, 0x3A :: 0x20 :: (Utf8.encode value ++ rest)) := by
  rw [memberTail, List.append_assoc]
  exact readString_quote key _

theorem length_memberTail (key value : String) : (Utf8.encode value).length < (memberTail key value).length := by
  simp only [memberTail, List.length_append, List.length_cons]
  omega

theorem blank_space : Blank [0x20] := by
  intro b hb
  rw [List.mem_singleton.1 hb]
  rfl

/-- A member is read as it is written. -/
theorem member_memberTail {read : String → Reader β} {key value : String} {a : β}
    (h : Takes (read key) (Utf8.encode value) a) {fuel : Nat} (hfuel : (Utf8.encode value).length ≤ fuel)
    (rest : Bytes) :
    member read fuel (memberTail key value ++ rest) = .ok (a, rest) := by
  rw [member, readString_memberTail]
  exact h fuel [0x20] rest blank_space hfuel

theorem members_end (hgap : Blank gap) (fuel : Nat) (rest : Bytes) :
    members read (fuel + 1) found (gap ++ 0x7D :: rest) = .ok (found.reverse, rest) := by
  rw [members, nextKey_end _ hgap, endObject_append hgap]
  rfl

theorem members_further (h : ∀ e ∈ entries, Takes read (Utf8.encode (write e.2)) e.2) (hfound : found ≠ [])
    (hgap : Blank gap) (fuel : Nat) (rest : Bytes) (hfuel : (further level (memberTexts write entries)).length < fuel) :
    members read fuel found (further level (memberTexts write entries) ++ (gap ++ 0x7D :: rest)) =
      .ok (found.reverse ++ entries, rest) := by
  obtain ⟨fuel, rfl⟩ := Nat.exists_eq_add_one.2 (Nat.zero_lt_of_lt hfuel)
  induction entries generalizing fuel found with
  | nil =>
    rw [List.append_nil]
    exact members_end hgap fuel rest
  | cons e entries ih =>
    obtain ⟨key, a⟩ := e
    rw [List.forall_mem_cons] at h
    obtain ⟨htakes, hrest⟩ := h
    have htail := length_memberTail key (write a)
    rw [further_memberTexts] at hfuel ⊢
    simp only [List.length_cons, List.length_append] at hfuel
    obtain ⟨fuel, rfl⟩ := Nat.exists_eq_add_one.2 (show 0 < fuel by omega)
    have hfalse : found.isEmpty = false := by simpa using hfound
    simp only [List.cons_append, List.append_assoc]
    rw [members, hfalse, nextKey_further (blank_line _)]
    dsimp only
    rw [member_memberTail (htakes.map fun value => (key, value)) (by omega)]
    dsimp only
    rw [ih hrest (List.cons_ne_nil _ found) fuel (by omega), List.reverse_cons, List.append_assoc,
      List.singleton_append]

/-- An object with any keys is taken as it is written. -/
theorem takes_map (h : ∀ e ∈ entries, Takes read (Utf8.encode (write e.2)) e.2) :
    Takes (map read) (Utf8.encode (prettyObject level (entries.map fun (key, a) => (key, write a)))) entries := by
  intro fuel gap rest hgap hfuel
  cases entries with
  | nil =>
    have hbytes : Utf8.encode (prettyObject level []) = [0x7B, 0x7D] := by
      rw [prettyObject, List.map_nil, block, if_pos rfl, Utf8.encode_append]
      rfl
    rw [List.map_nil, hbytes] at hfuel ⊢
    obtain ⟨fuel, rfl⟩ := Nat.exists_eq_add_one.2 (Nat.lt_of_lt_of_le (Nat.zero_lt_succ 1) hfuel)
    rw [map, List.cons_append, skipBlank_append_cons hgap (by rfl)]
    exact members_end blank_nil fuel rest
  | cons e entries =>
    obtain ⟨key, a⟩ := e
    rw [List.forall_mem_cons] at h
    obtain ⟨htakes, hrest⟩ := h
    have htail := length_memberTail key (write a)
    have htexts : memberTexts id (entries.map fun (key, a) => (key, write a)) = memberTexts write entries :=
      List.map_map
    rw [List.map_cons, encode_prettyObject_cons, htexts] at hfuel ⊢
    simp only [List.length_cons, List.length_append] at hfuel
    obtain ⟨fuel, rfl⟩ := Nat.exists_eq_add_one.2 (show 0 < fuel by omega)
    rw [map, List.cons_append, skipBlank_append_cons hgap (by rfl)]
    simp only [List.cons_append, List.append_assoc, List.nil_append]
    rw [members, List.isEmpty_nil, nextKey_first (blank_line _)]
    dsimp only
    rw [member_memberTail (htakes.map fun value => (key, value)) (by omega)]
    dsimp only
    rw [members_further hrest (List.cons_ne_nil (key, a) []) (blank_line _) fuel rest (by omega)]
    rfl

end Objects

/-! ## Records -/

/-- Some members, each of a field that was not seen before, fill a record up. -/
inductive Fills (s : Shape α) : List String → α → List (String × String) → α → Prop
  | done {seen : List String} {value : α} (h : ∀ name ∈ s.names, name ∈ seen) : Fills s seen value [] value
  | field {seen : List String} {value value' answer : α} {key text : String} {rest : List (String × String)}
    {read : α → Reader α} (hfield : s.fields.lookup key = some read) (hseen : key ∉ seen)
    (htakes : Takes (read value) (Utf8.encode text) value') (hrest : Fills s (key :: seen) value' rest answer) :
    Fills s seen value ((key, text) :: rest) answer

section Records

variable {s : Shape α} {seen : List String} {value answer : α} {members : List (String × String)} {gap : Bytes}
  {level : Nat}

theorem mem_of_lookup {γ : Type} {key : String} {c : γ} {table : List (String × γ)} (h : table.lookup key = some c) :
    key ∈ table.map Prod.fst := by
  obtain ⟨before, after, rfl, -⟩ := List.lookup_eq_some_iff.1 h
  rw [List.map_append]
  exact List.mem_append_right _ List.mem_cons_self

theorem byName_end (h : ∀ name ∈ s.names, name ∈ seen) (hgap : Blank gap) (fuel : Nat) (rest : Bytes) :
    s.byName (fuel + 1) seen value (gap ++ 0x7D :: rest) = .ok (value, rest) := by
  have hfind : s.names.find? (fun name => s.complete && ! seen.contains name) = none := by
    apply List.find?_eq_none.2
    intro name hname
    simp [h name hname]
  rw [Shape.byName, nextKey_end _ hgap]
  dsimp only
  rw [hfind, endObject_append hgap]
  rfl

/-- A field is read as it is written. -/
theorem byName_field {input rest : Bytes} {value' : α} {key text : String} {read : α → Reader α}
    (hfield : s.fields.lookup key = some read) (hseen : key ∉ seen)
    (htakes : Takes (read value) (Utf8.encode text) value') {fuel : Nat} (hfuel : (Utf8.encode text).length ≤ fuel)
    (hkey : nextKey seen.isEmpty input = .ok (some (memberTail key text ++ rest))) :
    s.byName (fuel + 1) seen value input = s.byName fuel (key :: seen) value' rest := by
  have hproblem : s.keyProblem? seen key = none := by
    have hknown : s.names.contains key = true := by simpa [Shape.names] using mem_of_lookup hfield
    have hnew : seen.contains key = false := by simpa using hseen
    rw [Shape.keyProblem?, hknown, hnew, if_pos rfl, if_neg Bool.false_ne_true]
  have hcolon (input : Bytes) : readColon (0x3A :: input) = .ok input := rfl
  rw [Shape.byName, hkey]
  dsimp only
  rw [readString_memberTail]
  dsimp only
  rw [hproblem, hcolon]
  dsimp only
  rw [Shape.field, hfield]
  dsimp only
  have hread := htakes fuel [0x20] rest blank_space hfuel
  rw [List.singleton_append] at hread
  rw [hread]

theorem byName_further (h : Fills s seen value members answer) (hnonempty : seen ≠ []) (hgap : Blank gap)
    (fuel : Nat) (rest : Bytes)
    (hfuel : (further level (memberTexts id members)).length < fuel) :
    s.byName fuel seen value (further level (memberTexts id members) ++ (gap ++ 0x7D :: rest)) =
      .ok (answer, rest) := by
  obtain ⟨fuel, rfl⟩ := Nat.exists_eq_add_one.2 (Nat.zero_lt_of_lt hfuel)
  induction h generalizing fuel with
  | done h => exact byName_end h hgap fuel rest
  | @field seen value value' answer key text more read hfield hseen htakes hrest ih =>
    have htail := length_memberTail key text
    rw [further_memberTexts, id_eq] at hfuel ⊢
    simp only [List.length_cons, List.length_append] at hfuel
    obtain ⟨fuel, rfl⟩ := Nat.exists_eq_add_one.2 (show 0 < fuel by omega)
    have hfalse : seen.isEmpty = false := by simpa using hnonempty
    simp only [List.cons_append, List.append_assoc]
    rw [byName_field hfield hseen htakes (by omega) (by rw [hfalse, nextKey_further (blank_line _)])]
    exact ih (List.cons_ne_nil key seen) fuel (by omega)

/-- A record is taken as it is written. -/
theorem takes_record (h : Fills s [] s.start members answer) (hmembers : members ≠ []) :
    Takes s.read (Utf8.encode (prettyObject level members)) answer := by
  intro fuel gap rest hgap hfuel
  cases h with
  | done => exact absurd rfl hmembers
  | @field _ _ value' _ key text more read hfield hseen htakes hrest =>
    have htail := length_memberTail key text
    rw [encode_prettyObject_cons] at hfuel ⊢
    simp only [List.length_cons, List.length_append] at hfuel
    obtain ⟨fuel, rfl⟩ := Nat.exists_eq_add_one.2 (show 0 < fuel by omega)
    rw [Shape.read, List.cons_append, skipBlank_append_cons hgap (by rfl)]
    simp only [List.cons_append, List.append_assoc, List.nil_append]
    show s.byName _ _ _ _ = _
    rw [byName_field hfield hseen htakes (by omega) (by rw [List.isEmpty_nil, nextKey_first (blank_line _)])]
    exact byName_further hrest (List.cons_ne_nil key []) (blank_line _) fuel rest (by omega)

end Records

end Bundler.Json
