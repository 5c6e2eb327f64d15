import Bundler.Decimal.Shortest
import Bundler.Json.Reader
/-!
# Numbers in JSON

A number without a fraction or an exponent is whole as long as 64 bits hold it; any other is a
binary floating-point number. Of the digits, those count that make a significand below `2 ^ 64`;
the significand is then multiplied or divided by powers of ten, with a rounding at each step, so the
last place need not be the nearest one.
-/

namespace Bundler.Json

open Decimal (Binary)

/-- A number. -/
inductive Number where
  | natural (n : Nat)
  /-- The number `-n`. -/
  | negative (n : Nat)
  | float (minus : Bool) (magnitude : Binary)
  deriving DecidableEq, Repr

/-- The number in a message. -/
def Number.shown : Number → String
  | .natural n => "integer `" ++ toString n ++ "`"
  | .negative n => "integer `-" ++ toString n ++ "`"
  | .float minus x =>
    "floating point `" ++ (if minus then "-" else "") ++ Decimal.compact (Decimal.shortest x) ++ "`"

/-- The number of values of 64 bits. -/
def wordCount : Nat := 0x10000000000000000

/-- The value of a digit. -/
def digitValue (b : UInt8) : Nat := b.toNat - 0x30

/-- Puts digits behind a significand as long as it stays below `2 ^ 64`. Answers with it, the number
of digits taken, and the rest of the digits. -/
def takeDigits : Nat → Nat → Bytes → Nat × Nat × Bytes
  | significand, taken, [] => (significand, taken, [])
  | significand, taken, b :: digits =>
    let next := significand * 10 + digitValue b
    if next < wordCount then takeDigits next (taken + 1) digits
    else (significand, taken, b :: digits)

/-- The significand divided by a power of ten, in steps of at most 308. -/
def scaleDown : Nat → Binary → Nat → Binary
  | 0, _, _ => Binary.zero
  | fuel + 1, x, n =>
    if x.mantissa = 0 then x
    else
      let quotient (n : Nat) := ((Binary.powerOfTen n).bind x.div).getD Binary.zero
      if n ≤ 308 then quotient n else scaleDown fuel (quotient 308) (n - 308)

/-- The significand times a power of ten, if it is not too great. -/
def scale (significand : Nat) (exponent : Int) : Option Binary := do
  let x ← Binary.ofRatio significand 1
  if exponent < 0 then pure (scaleDown 8 x (-exponent).toNat)
  else if x.mantissa = 0 then pure x
  else if 308 < exponent then none
  else
    let power ← Binary.powerOfTen exponent.toNat
    x.mul power

/-- The number with its scale. -/
def scaled (minus : Bool) (significand : Nat) (exponent : Int) (rest : Bytes) :
    Except Stop (Number × Bytes) :=
  match scale significand exponent with
  | none => stopAt .greatNumber rest
  | some x => .ok (.float minus x, rest)

/-- The exponents that are told apart. -/
def exponentCount : Nat := 0x80000000

/-- How many digits it takes for an exponent to pass all that are told apart, if it does. -/
def overlong : Nat → Nat → Bytes → Option Nat
  | _, _, [] => none
  | value, taken, b :: digits =>
    let next := value * 10 + digitValue b
    if exponentCount ≤ next then some (taken + 1) else overlong next (taken + 1) digits

/-- Reads the exponent behind its `e`. -/
def readExponent (minus : Bool) (significand : Nat) (exponent : Int) (input : Bytes) :
    Except Stop (Number × Bytes) :=
  let down := input.head? = some 0x2D
  let digitsOn := skipSign input
  match digitsOn with
  | [] => stopAt .endInValue []
  | b :: rest =>
    if ! isDigit b then stopAt .badNumber rest
    else
      let digits := digitsOn.takeWhile isDigit
      let rest := digitsOn.dropWhile isDigit
      match overlong 0 0 digits with
      | some taken =>
        if significand ≠ 0 ∧ ! down then stopAt .greatNumber (digitsOn.drop taken)
        else .ok (.float minus Binary.zero, rest)
      | none =>
        let value : Int := digits.foldl (fun n b => n * 10 + digitValue b) 0
        scaled minus significand (if down then exponent - value else exponent + value) rest

/-- Reads what follows the digits of a number that is no whole one. -/
def readScale (minus : Bool) (significand : Nat) (exponent : Int) (rest : Bytes) :
    Except Stop (Number × Bytes) :=
  match rest with
  | 0x65 :: rest => readExponent minus significand exponent rest
  | 0x45 :: rest => readExponent minus significand exponent rest
  | rest => scaled minus significand exponent rest

/-- Reads the digits behind a point. -/
def readFraction (minus : Bool) (significand : Nat) (exponent : Int) (input : Bytes) :
    Except Stop (Number × Bytes) :=
  match input.takeWhile isDigit with
  | [] => stopPast (if input = [] then .endInValue else .badNumber) input
  | digits =>
    let (significand, taken, _) := takeDigits significand 0 digits
    readScale minus significand (exponent - taken) (input.dropWhile isDigit)

/-- Reads a number behind its minus sign. -/
def readNumber (minus : Bool) (input : Bytes) : Except Stop (Number × Bytes) :=
  match input with
  | [] => stopAt .endInValue []
  | b :: more =>
    if ! isDigit b then stopAt .badNumber more
    else if b = 0x30 ∧ beginsWithDigit more then stopPast .badNumber more
    else
      let (significand, _, dropped) := takeDigits 0 0 (input.takeWhile isDigit)
      match input.dropWhile isDigit with
      | 0x2E :: rest => readFraction minus significand dropped.length rest
      | rest =>
        if dropped ≠ [] ∨ rest.head? = some 0x65 ∨ rest.head? = some 0x45 then
          readScale minus significand dropped.length rest
        else if ! minus then .ok (.natural significand, rest)
        else if significand = 0 ∨ wordCount / 2 < significand then scaled minus significand 0 rest
        else .ok (.negative significand, rest)

end Bundler.Json
