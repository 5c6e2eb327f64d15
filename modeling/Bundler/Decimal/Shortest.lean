import Bundler.Decimal.Binary
/-!
# The shortest decimal of a binary number

The decimal with the fewest digits among those that are nearer to a binary number than to any other
of its format; of two such decimals, the nearer one. `positional` writes it without an exponent,
`compact` with one where the point would be far from the digits.
-/

namespace Bundler.Decimal

/-- The number `digits * 10 ^ exponent`. -/
structure Number where
  digits : Nat
  exponent : Int
  deriving DecidableEq, Repr

/-- The multiple of `10 ^ p` that reads back as a binary number, the nearer one of two. In quarters
of the last binary place the number is `4 * mantissa`, and the numbers that round to it reach two
quarters up and two down, or one down behind a power of two; the ends belong to an even mantissa. -/
def onGrid (x : Binary) (p : Int) : Option Nat :=
  let place := x.exponent - 2
  let a := Nat.pow 10 p.toNat * Nat.pow 2 (-place).toNat
  let b := Nat.pow 10 (-p).toNat * Nat.pow 2 place.toNat
  let value := 4 * x.mantissa
  let down := if x.mantissa = Binary.leading ∧ Binary.minExponent < x.exponent then 1 else 2
  let inside (d : Nat) : Bool :=
    if x.mantissa % 2 = 0 then (value - down) * b ≤ d * a && d * a ≤ (value + 2) * b
    else (value - down) * b < d * a && d * a < (value + 2) * b
  let low := value * b / a
  let below := value * b - low * a
  let above := (low + 1) * a - value * b
  if inside low && (! inside (low + 1) || below < above || below = above && low % 2 = 0) then
    some low
  else if inside (low + 1) then some (low + 1)
  else none

/-- The first power of ten, going down, with a multiple that reads back. -/
def firstGrid (x : Binary) : Nat → Int → Number
  | 0, p => ⟨0, p⟩
  | fuel + 1, p =>
    match onGrid x p with
    | some digits => ⟨digits, p⟩
    | none => firstGrid x fuel (p - 1)

/-- The shortest decimal of a number. -/
def shortest (x : Binary) : Number :=
  if x.mantissa = 0 then ⟨0, 0⟩ else firstGrid x 700 310

/-- Zeros in a row. -/
def zeros (n : Nat) : String := String.ofList (List.replicate n '0')

/-- A text with a point behind its first characters. -/
def withPoint (s : String) (n : Nat) : String :=
  String.ofList (s.toList.take n ++ '.' :: s.toList.drop n)

/-- The decimal without an exponent. -/
def positional (d : Number) : String :=
  let s := toString d.digits
  let whole : Int := s.length + d.exponent
  if 0 ≤ d.exponent then s ++ zeros d.exponent.toNat
  else if 0 < whole then withPoint s whole.toNat
  else "0." ++ zeros (-whole).toNat ++ s

/-- The decimal with a point, and with an exponent unless the point is at most 16 places behind the
first digit or has at most 4 zeros behind it. -/
def compact (d : Number) : String :=
  let s := toString d.digits
  let whole : Int := s.length + d.exponent
  if 0 ≤ d.exponent ∧ whole ≤ 16 then positional d ++ ".0"
  else if -5 < whole ∧ whole ≤ 16 then positional d
  else (if s.length = 1 then s else withPoint s 1) ++ "e" ++ toString (whole - 1)

end Bundler.Decimal
