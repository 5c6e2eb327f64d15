import Bundler.Decimal.FloatValue
/-!
# Decimals with a given number of places

How a binary number is written with as many digits as one asks for: with places behind a point, with
one digit in front of the point and an exponent, or with whichever of the two is shorter. The digits
are those of the exact value, rounded to the nearest and a tie to the even digit.
-/

namespace Bundler.Decimal

/-- Digits with a point behind the first `whole` of them; `keepPoint` keeps the point where nothing
follows it. -/
def pointed (digits : List Char) (whole : Nat) (keepPoint : Bool) : List Char :=
  let behind := digits.drop whole
  digits.take whole ++ (if behind.isEmpty && ! keepPoint then [] else '.' :: behind)

/-- The digits of a number, with zeros in front if there are too few. -/
def digitsOf (n width : Nat) : List Char :=
  let s := (toString n).toList
  List.replicate (width - s.length) '0' ++ s

/-- A fraction with a number of places. -/
def fixed (num den places : Nat) (keepPoint : Bool) : List Char :=
  let digits := digitsOf (Binary.divideToEven (num * Nat.pow 10 places) den) (places + 1)
  pointed digits (digits.length - places) keepPoint

/-- The power of ten of the first digit of a fraction that is not zero. -/
def decimalExponent (num den : Nat) : Int :=
  if den ≤ num then ((toString (num / den)).length : Int) - 1
  else
    let shift := (toString den).length - (toString num).length + 1
    ((toString (num * Nat.pow 10 shift / den)).length : Int) - 1 - (shift : Int)

/-- The first digits of a fraction, `places` of them behind the first one, with the power of ten of
the first digit. -/
def leadingDigits (num den places : Nat) : List Char × Int :=
  if num = 0 then (List.replicate (places + 1) '0', 0)
  else
    let e := decimalExponent num den
    let shift : Int := (places : Int) - e
    let n := Binary.divideToEven (num * Nat.pow 10 shift.toNat) (den * Nat.pow 10 (-shift).toNat)
    let digits := (toString n).toList
    if digits.length = places + 2 then (digits.dropLast, e + 1) else (digits, e)

/-- An exponent with its sign and two digits at least. -/
def exponentText (e : Int) : List Char :=
  (if e < 0 then '-' else '+') :: digitsOf e.natAbs 2

/-- A fraction with one digit in front of the point and an exponent. -/
def scientific (num den places : Nat) (keepPoint : Bool) : List Char :=
  let (digits, e) := leadingDigits num den places
  pointed digits 1 keepPoint ++ 'e' :: exponentText e

/-- Drops zeros at the end of the places behind a point, and a point that nothing follows. -/
def dropZeros (s : List Char) : List Char :=
  if s.contains '.' then
    let kept := s.reverse.dropWhile (· == '0')
    (if kept.head? = some '.' then kept.drop 1 else kept).reverse
  else s

/-- A fraction with a number of digits: with an exponent only where that is below -4 or has no digit
to go with it. Zeros at the end are dropped unless `keepZeros` says otherwise. -/
def general (num den digits : Nat) (keepZeros : Bool) : List Char :=
  let digits := max digits 1
  let (shown, e) := leadingDigits num den (digits - 1)
  let trim (s : List Char) := if keepZeros then s else dropZeros s
  if -4 ≤ e ∧ e < digits then trim (fixed num den ((digits : Int) - 1 - e).toNat keepZeros)
  else trim (pointed shown 1 keepZeros) ++ 'e' :: exponentText e

/-- A number in base sixteen with a power of two, with a number of places or with as many as it
takes. -/
def hexadecimal (x : Binary) (places : Option Nat) (keepPoint : Bool) : List Char :=
  let normal := Binary.leading ≤ x.mantissa
  let exponent : Int := if x.mantissa = 0 then 0 else x.exponent + 52
  let (whole, fraction, width) : Nat × Nat × Nat :=
    match places with
    | some n =>
      if n < 13 then
        let m := Binary.divideToEven x.mantissa (Nat.pow 16 (13 - n))
        (m / Nat.pow 16 n, m % Nat.pow 16 n, n)
      else
        (if normal then 1 else 0, x.mantissa % Binary.leading * Nat.pow 16 (n - 13), n)
    | none => (if normal then 1 else 0, x.mantissa % Binary.leading, 13)
  let digits := Nat.toDigits 16 fraction
  let padded := if width = 0 then [] else List.replicate (width - digits.length) '0' ++ digits
  let shown :=
    if places.isSome then padded else (padded.reverse.dropWhile (· == '0')).reverse
  "0x".toList ++ Nat.toDigits 16 whole ++
    (if shown.isEmpty && ! keepPoint then [] else '.' :: shown) ++
    'p' :: (if exponent < 0 then '-' else '+') :: (toString exponent.natAbs).toList

end Bundler.Decimal
