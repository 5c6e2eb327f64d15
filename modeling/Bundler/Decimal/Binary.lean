/-!
# Binary floating-point magnitudes

The numbers without sign of the 64-bit binary format: a mantissa below `2 ^ 53` times a power of
two. `ofRatio` rounds a fraction to the nearest of them, a tie to the even mantissa, so that a
product or a quotient of two of them is rounded once.
-/

namespace Bundler.Decimal

/-- The number `mantissa * 2 ^ exponent`. -/
structure Binary where
  mantissa : Nat
  exponent : Int
  deriving DecidableEq, Repr

namespace Binary

/-- The mantissa of a power of two that is not among the smallest numbers. -/
def leading : Nat := 0x10000000000000

/-- The exponent of the smallest numbers. -/
def minExponent : Int := -1074

/-- The exponent of the greatest numbers. -/
def maxExponent : Int := 971

def zero : Binary := ⟨0, minExponent⟩

/-- The fraction that a number is. -/
def ratio (x : Binary) : Nat × Nat :=
  (x.mantissa * Nat.pow 2 x.exponent.toNat, Nat.pow 2 (-x.exponent).toNat)

/-- A quotient rounded to the nearest whole number, a tie to the even one. -/
def divideToEven (num den : Nat) : Nat :=
  let low := num / den
  let rest := 2 * (num % den)
  if rest < den then low
  else if den < rest then low + 1
  else low + low % 2

/-- The exponent for which the mantissa of a fraction has 53 bits, if the format goes so low. -/
def exponentFor (num den : Nat) : Int :=
  let e : Int := (Nat.log2 num : Int) - (Nat.log2 den : Int)
  let reaches := den * Nat.pow 2 e.toNat ≤ num * Nat.pow 2 (-e).toNat
  max minExponent (if reaches then e - 52 else e - 53)

/-- The nearest number of the format, or nothing where the fraction is too great for it. -/
def ofRatio (num den : Nat) : Option Binary :=
  if num = 0 then some zero
  else
    let q := exponentFor num den
    let m := divideToEven (num * Nat.pow 2 (-q).toNat) (den * Nat.pow 2 q.toNat)
    let (m, q) := if m = 2 * leading then (leading, q + 1) else (m, q)
    if maxExponent < q then none else some ⟨m, q⟩

/-- The rounded product. -/
def mul (x y : Binary) : Option Binary :=
  let (a, b) := x.ratio
  let (c, d) := y.ratio
  ofRatio (a * c) (b * d)

/-- The rounded quotient by a number that is not zero. -/
def div (x y : Binary) : Option Binary :=
  let (a, b) := x.ratio
  let (c, d) := y.ratio
  ofRatio (a * d) (b * c)

/-- The number nearest to a power of ten that the format can hold. -/
def powerOfTen (n : Nat) : Option Binary := ofRatio (Nat.pow 10 n) 1

end Binary
end Bundler.Decimal
