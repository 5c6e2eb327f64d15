import Bundler.Decimal.Shortest
/-!
# Values of the binary interchange formats

A number of 16, 32 or 64 bits consists of a sign, an exponent and a fraction. The narrower formats
are read into the widest one, which holds all their values.
-/

namespace Bundler.Decimal

/-- What the bits of a number stand for. -/
inductive FloatValue where
  | finite (minus : Bool) (magnitude : Binary)
  | infinite (minus : Bool)
  | notANumber
  deriving DecidableEq, Repr

namespace FloatValue

/-- The value of bits with the given widths of the exponent and the fraction. -/
def ofBits (exponentBits fractionBits n : Nat) : FloatValue :=
  let units := Nat.pow 2 fractionBits
  let exponents := Nat.pow 2 exponentBits
  let fraction := n % units
  let exponent := n / units % exponents
  let minus := n / units / exponents % 2 = 1
  if exponent = exponents - 1 then
    if fraction = 0 then .infinite minus else .notANumber
  else
    let place : Int := (max exponent 1 : Nat) - ((exponents / 2 - 1 + fractionBits : Nat) : Int)
    let mantissa := if exponent = 0 then fraction else units + fraction
    let magnitude :=
      Binary.ofRatio (mantissa * Nat.pow 2 place.toNat) (Nat.pow 2 (-place).toNat)
    .finite minus (magnitude.getD Binary.zero)

/-- The value of two, four or eight bytes, the highest first. -/
def ofWidth (width n : Nat) : FloatValue :=
  if width = 2 then ofBits 5 10 n else if width = 4 then ofBits 8 23 n else ofBits 11 52 n

/-- The value without an exponent, always with a point. -/
def text : FloatValue → String
  | .finite minus x =>
    let shown := positional (shortest x)
    (if minus then "-" else "") ++ (if shown.contains '.' then shown else shown ++ ".0")
  | .infinite minus => if minus then "-inf" else "inf"
  | .notANumber => "NaN"

end FloatValue
end Bundler.Decimal
