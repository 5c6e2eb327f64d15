import Bundler.Text.Utf8
/-!
# Octets

The shell and its tools work on bytes and know only the ASCII characters. Their texts are lists of
characters that each stand for the byte of its code. `Octets.ofText` and `Octets.text` go between
such lists and real text.
-/

namespace Bundler

/-- A text of bytes; every character stands for the byte of its code. -/
abbrev Octets := List Char

namespace Octets

/-- The bytes of a file as a text of bytes. -/
def ofBytes (bytes : Bytes) : Octets := bytes.map fun b => Char.ofNat b.toNat

/-- The bytes that a text of bytes stands for. -/
def toBytes (s : Octets) : Bytes := s.map fun c => UInt8.ofNat c.toNat

/-- The bytes of a text. -/
def ofText (s : String) : Octets := ofBytes (Utf8.encode s)

/-- The text that the bytes encode. -/
def text (s : Octets) : String := Utf8.decodeLossy s.toBytes

/-- Order of texts: byte by byte. -/
def compare (a b : Octets) : Ordering := List.compareLex Ord.compare a b

/-! ## Numbers -/

/-- The digits of a number. -/
def ofNat (n : Nat) : Octets := (toString n).toList

/-- The digits of a number, behind a minus sign if it is negative. -/
def ofInt (n : Int) : Octets := (toString n).toList

/-- The value of a digit, in bases up to 36. -/
def digit? (c : Char) : Option Nat :=
  if '0' ≤ c ∧ c ≤ '9' then some (c.toNat - 0x30)
  else if 'a' ≤ c ∧ c ≤ 'z' then some (c.toNat - 0x61 + 10)
  else if 'A' ≤ c ∧ c ≤ 'Z' then some (c.toNat - 0x41 + 10)
  else none

/-- Whether a character is a digit of a base. -/
def isDigitOf (base : Nat) (c : Char) : Bool := (digit? c).any (· < base)

/-- The number that digits of a base spell. -/
def valueOf (base : Nat) (digits : Octets) : Nat :=
  digits.foldl (fun n c => n * base + (digit? c).getD 0) 0

/-- The number that a text of decimal digits spells. -/
def nat? (s : Octets) : Option Nat :=
  if s ≠ [] ∧ s.all (isDigitOf 10) then some (valueOf 10 s) else none

/-- The sum of some numbers. -/
def total (ns : List Nat) : Nat := ns.foldl (fun sum n => sum + n) 0

/-! ## Pieces -/

/-- The pieces between the characters that `cuts`, empty ones included. -/
def pieces (cuts : Char → Bool) (s : Octets) : List Octets :=
  s.foldr (fun c found =>
    match found with
    | [] => [[c]]
    | piece :: more => if cuts c then [] :: piece :: more else (c :: piece) :: more) [[]]

/-- The lines of a text, without their ends; a last line needs none. -/
def lines (s : Octets) : List Octets :=
  let all := pieces (· == '\n') s
  if all.getLast? = some [] then all.dropLast else all

/-- Lines as a text, each with its end. -/
def unlines (ls : List Octets) : Octets := ls.flatMap (· ++ ['\n'])

/-- Texts with a text between each two. -/
def joined (between : Octets) (ss : List Octets) : Octets := (ss.intersperse between).flatten

end Octets
end Bundler
