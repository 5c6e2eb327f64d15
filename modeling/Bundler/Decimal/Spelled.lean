import Bundler.Decimal.FloatValue
/-!
# Spelled numbers

The number at the start of a text: decimal digits with a point and an exponent, digits in base
sixteen behind `0x` with a power of two, or the words for what is no finite number. It is the binary
number that is nearest.
-/

namespace Bundler.Decimal

/-- A number that was read. -/
structure Spelled where
  value : FloatValue
  /-- The number that is spelled is too great, or too small, for the format. -/
  outOfRange : Bool
  /-- What follows the number. -/
  rest : List Char
  deriving DecidableEq, Repr

namespace Spelled

/-- The value of a digit of base sixteen. -/
def digit (c : Char) : Nat :=
  if c.isDigit then c.toNat - 48 else if c.isUpper then c.toNat - 55 else c.toNat - 87

/-- Whether a character is a digit of base sixteen. -/
def isHexDigit (c : Char) : Bool := c.isDigit || ('a' ≤ c.toLower && c.toLower ≤ 'f')

/-- Digits with a point among them: their number, how many stand behind the point, and what
follows; nothing where there is no digit. -/
def mantissa? (base : Nat) (isDigit : Char → Bool) (s : List Char) :
    Option (Nat × Nat × List Char) :=
  let whole := s.takeWhile isDigit
  let rest := s.drop whole.length
  let (behind, rest) : List Char × List Char :=
    match rest with
    | '.' :: more =>
      let digits := more.takeWhile isDigit
      if whole.isEmpty && digits.isEmpty then ([], rest) else (digits, more.drop digits.length)
    | _ => ([], rest)
  if whole.isEmpty && behind.isEmpty then none
  else
    some ((whole ++ behind).foldl (fun n c => n * base + digit c) 0, behind.length, rest)

/-- An exponent behind one of two letters; without digits there is none. -/
def exponent (letter : Char) (s : List Char) : Int × List Char :=
  match s with
  | c :: rest =>
    if c.toLower ≠ letter then (0, s)
    else
      let minus := rest.head? = some '-'
      let unsigned := if minus || rest.head? = some '+' then rest.drop 1 else rest
      let digits := unsigned.takeWhile Char.isDigit
      if digits.isEmpty then (0, s)
      else
        let n : Nat := min (digits.foldl (fun n c => n * 10 + digit c) 0) 100000
        (if minus then -(n : Int) else n, unsigned.drop digits.length)
  | [] => (0, s)

/-- The nearest binary number to `n * base ^ e`. -/
def nearest (minus : Bool) (n base : Nat) (e : Int) (rest : List Char) : Spelled :=
  if n = 0 then ⟨.finite minus Binary.zero, false, rest⟩
  else
    let size : Int := (toString n).length
    if 5000 < e then ⟨.infinite minus, true, rest⟩
    else if e < -5000 - 4 * size then ⟨.finite minus Binary.zero, true, rest⟩
    else
      match Binary.ofRatio (n * Nat.pow base e.toNat) (Nat.pow base (-e).toNat) with
      | none => ⟨.infinite minus, true, rest⟩
      | some x => ⟨.finite minus x, x.mantissa < Binary.leading, rest⟩

/-- A word in small or capital letters at the start of a text. -/
def word? (w : String) (s : List Char) : Option (List Char) :=
  if (s.take w.length).map Char.toLower = w.toList then some (s.drop w.length) else none

/-- What is spelled behind the sign. -/
def unsigned? (minus : Bool) (s : List Char) : Option Spelled :=
  match (word? "infinity" s).orElse fun _ => word? "inf" s with
  | some rest => some ⟨.infinite minus, false, rest⟩
  | none =>
    match word? "nan" s with
    | some rest => some ⟨.notANumber, false, rest⟩
    | none =>
      let hexadecimal :=
        match s with
        | '0' :: x :: more =>
          if x.toLower = 'x' then
            (mantissa? 16 isHexDigit more).map fun ((n, places, rest) : Nat × Nat × List Char) =>
              let (e, rest) := exponent 'p' rest
              nearest minus n 2 (e - 4 * (places : Nat)) rest
          else none
        | _ => none
      hexadecimal.orElse fun _ =>
        (mantissa? 10 Char.isDigit s).map fun ((n, places, rest) : Nat × Nat × List Char) =>
          let (e, rest) := exponent 'e' rest
          nearest minus n 10 (e - (places : Nat)) rest

/-- The number at the start of a text. -/
def read? (s : List Char) : Option Spelled :=
  match s with
  | '-' :: rest => unsigned? true rest
  | '+' :: rest => unsigned? false rest
  | _ => unsigned? false s

end Spelled
end Bundler.Decimal
