/-!
# UTF-8

Text as bytes and back. `encode` writes each character in its shortest form. Reading goes byte by
byte: a `Partial` says which bytes may come next, so a damaged sequence ends at the first byte that
cannot belong to it. `decode?` refuses damaged input, `decodeLossy` puts U+FFFD in the place of each
damaged sequence.
-/

namespace Bundler

/-- The contents of a file. -/
abbrev Bytes := List UInt8

namespace Utf8

/-- The one to four bytes of a character. -/
def encodeChar (c : Char) : Bytes :=
  let v := c.toNat
  if v < 0x80 then [UInt8.ofNat v]
  else if v < 0x800 then [UInt8.ofNat (0xC0 + v / 0x40), UInt8.ofNat (0x80 + v % 0x40)]
  else if v < 0x10000 then
    [UInt8.ofNat (0xE0 + v / 0x1000), UInt8.ofNat (0x80 + v / 0x40 % 0x40),
      UInt8.ofNat (0x80 + v % 0x40)]
  else
    [UInt8.ofNat (0xF0 + v / 0x40000), UInt8.ofNat (0x80 + v / 0x1000 % 0x40),
      UInt8.ofNat (0x80 + v / 0x40 % 0x40), UInt8.ofNat (0x80 + v % 0x40)]

/-- The bytes of a text. -/
def encode (s : String) : Bytes := s.toList.flatMap encodeChar

/-- A character of which some bytes were read: its bits so far, how many bytes it still misses, and
the range in which the next of them must lie. -/
structure Partial where
  bits : Nat
  missing : Nat
  low : Nat
  high : Nat
  deriving DecidableEq, Repr

/-- What was read so far: the pieces, the latest first (`none` for a damaged sequence), and the
character that is still open. -/
structure Reader where
  pieces : List (Option Char)
  pending : Option Partial
  deriving DecidableEq, Repr

/-- Reads the byte that begins a character. The ranges leave out overlong forms, surrogates and
values above U+10FFFF. -/
def Reader.first (pieces : List (Option Char)) (b : Nat) : Reader :=
  if b < 0x80 then ⟨some (Char.ofNat b) :: pieces, none⟩
  else if b < 0xC2 then ⟨none :: pieces, none⟩
  else if b < 0xE0 then ⟨pieces, some ⟨b - 0xC0, 1, 0x80, 0xBF⟩⟩
  else if b < 0xF0 then
    ⟨pieces, some ⟨b - 0xE0, 2, if b = 0xE0 then 0xA0 else 0x80, if b = 0xED then 0x9F else 0xBF⟩⟩
  else if b < 0xF5 then
    ⟨pieces, some ⟨b - 0xF0, 3, if b = 0xF0 then 0x90 else 0x80, if b = 0xF4 then 0x8F else 0xBF⟩⟩
  else ⟨none :: pieces, none⟩

/-- Reads one byte. A byte that cannot continue the open character ends it as damaged and begins
the next one. -/
def Reader.step (r : Reader) (byte : UInt8) : Reader :=
  let b := byte.toNat
  match r.pending with
  | none => first r.pieces b
  | some p =>
    if p.low ≤ b ∧ b ≤ p.high then
      let bits := p.bits * 0x40 + (b - 0x80)
      if p.missing = 1 then ⟨some (Char.ofNat bits) :: r.pieces, none⟩
      else ⟨r.pieces, some ⟨bits, p.missing - 1, 0x80, 0xBF⟩⟩
    else first (none :: r.pieces) b

/-- All pieces in reading order; a character that the input cuts off is damaged. -/
def Reader.finish (r : Reader) : List (Option Char) :=
  match r.pending with
  | none => r.pieces.reverse
  | some _ => (none :: r.pieces).reverse

/-- The characters of some bytes, `none` for each longest damaged sequence. -/
def pieces (bytes : Bytes) : List (Option Char) :=
  (bytes.foldl Reader.step ⟨[], none⟩).finish

/-- The text that the bytes encode, unless a part of them is damaged. -/
def decode? (bytes : Bytes) : Option String :=
  ((pieces bytes).mapM id).map String.ofList

/-- What follows the last whole character in front of the first damage. The first argument is the
open character, the second the input from its first byte on. -/
def tailFrom : Option Partial → Bytes → Bytes → Bytes
  | none, _, [] => []
  | some _, start, [] => start
  | pending, start, b :: rest =>
    let r := Reader.step ⟨[], pending⟩ b
    if r.pieces.contains none then start
    else if r.pending.isNone then tailFrom none rest rest
    else tailFrom r.pending start rest

/-- The bytes that follow the longest part of the input that is text. -/
def brokenTail (bytes : Bytes) : Bytes := tailFrom none bytes bytes

/-- The character that stands for a damaged sequence. -/
def replacement : Char := Char.ofNat 0xFFFD

/-- The text that the bytes encode, with `replacement` for each damaged sequence. -/
def decodeLossy (bytes : Bytes) : String :=
  String.ofList ((pieces bytes).map (·.getD replacement))

/-- The bytes of a joined text are the joined bytes. -/
theorem encode_append (s t : String) : encode (s ++ t) = encode s ++ encode t := by
  simp [encode]

end Utf8
end Bundler
