import Bundler.Text.Utf8
/-!
# Hexadecimal text

Bytes as pairs of lowercase hexadecimal digits.
-/

namespace Bundler.Hex

/-- The lowercase digit of a value below 16. -/
def digit (n : Nat) : Char := Nat.digitChar n

/-- Two digits for a byte, the high one first. -/
def ofByte (b : UInt8) : List Char := [digit (b.toNat / 16), digit (b.toNat % 16)]

/-- The digits of all bytes in order. -/
def ofBytes (bytes : Bytes) : String := String.ofList (bytes.flatMap ofByte)

/-- Hexadecimal digits of a number without leading zeros. -/
def ofNat (n : Nat) : String := String.ofList (Nat.toDigits 16 n)

end Bundler.Hex
