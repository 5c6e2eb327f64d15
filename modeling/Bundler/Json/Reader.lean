import Bundler.Json.Problem
import Bundler.Text.Quoted
import Bundler.Text.Utf8
/-!
# Reading JSON

A `Reader` takes a value of some kind from the front of the input. Reading is strict and goes from
left to right, so the first problem counts. It ends in a `Stop`, which says how many bytes were left.
`skipValue` passes over a value of any kind and nesting; it checks less than the readers that want
the value: a string may hold surrogates without a partner or bytes that are no text.
-/

namespace Bundler.Json

/-- Where reading stopped: the problem, and how many bytes were left. -/
structure Stop where
  problem : Problem
  left : Nat
  deriving DecidableEq, Repr

/-- Takes a value from the front of the input. The first argument bounds the number of steps. -/
abbrev Reader (α : Type) := Nat → Bytes → Except Stop (α × Bytes)

/-- Reads a value and puts it into another one. -/
def Reader.into {α β : Type} (read : Reader β) (put : α → β → α) (value : α) : Reader α :=
  fun fuel input => (read fuel input).map fun (part, rest) => (put value part, rest)

/-- Reads a value that stands for another one. -/
def Reader.map {α β : Type} (f : α → β) (read : Reader α) : Reader β :=
  fun fuel input => (read fuel input).map fun (value, rest) => (f value, rest)

/-- Stops in front of the rest. -/
def stopAt {α : Type} (problem : Problem) (rest : Bytes) : Except Stop α :=
  .error ⟨problem, rest.length⟩

/-- Stops behind the first byte of the rest, or at the end. -/
def stopPast {α : Type} (problem : Problem) (rest : Bytes) : Except Stop α :=
  .error ⟨problem, rest.length - 1⟩

/-- The place of a stop in the whole input. -/
def Stop.place (s : Stop) (input : Bytes) : Error :=
  let before := input.take (input.length - s.left)
  ⟨s.problem, 1 + before.count 0x0A, (before.reverse.takeWhile (· != 0x0A)).length⟩

/-- Space, tab, line feed and carriage return. -/
def isBlank (b : UInt8) : Bool := b == 0x20 || b == 0x09 || b == 0x0A || b == 0x0D

/-- The input without the blanks at its start. -/
def skipBlank (input : Bytes) : Bytes := input.dropWhile isBlank

/-- The value at the front of the input, behind which there is nothing more. -/
def Reader.whole {α : Type} (read : Reader α) (input : Bytes) : Except Stop α :=
  match read (2 * input.length + 2) input with
  | .error s => .error s
  | .ok (value, rest) =>
    match skipBlank rest with
    | [] => .ok value
    | rest => stopPast .trailingCharacters rest

/-- The one value that the input holds. -/
def Reader.decode {α : Type} (read : Reader α) (input : Bytes) : Except Error α :=
  match read.whole input with
  | .error s => .error (s.place input)
  | .ok value => .ok value

/-! ## Words -/

/-- The rest of a word. -/
def readWord : Bytes → Bytes → Except Stop Bytes
  | [], input => .ok input
  | _ :: _, [] => stopAt .endInValue []
  | w :: word, b :: input => if b = w then readWord word input else stopAt .wordWanted input

/-- What follows the first letter of `null`. -/
def nullTail : Bytes := [0x75, 0x6C, 0x6C]

/-- What follows the first letter of `true`. -/
def trueTail : Bytes := [0x72, 0x75, 0x65]

/-- What follows the first letter of `false`. -/
def falseTail : Bytes := [0x61, 0x6C, 0x73, 0x65]

/-! ## Strings -/

/-- The value of a hexadecimal digit of either case. -/
def hexValue? (b : UInt8) : Option Nat :=
  let n := b.toNat
  if 0x30 ≤ n ∧ n ≤ 0x39 then some (n - 0x30)
  else if 0x41 ≤ n ∧ n ≤ 0x46 then some (n - 0x41 + 10)
  else if 0x61 ≤ n ∧ n ≤ 0x66 then some (n - 0x61 + 10)
  else none

/-- The number of four hexadecimal digits. -/
def unit? (a b c d : UInt8) : Option Nat := do
  let a ← hexValue? a
  let b ← hexValue? b
  let c ← hexValue? c
  let d ← hexValue? d
  pure (((a * 16 + b) * 16 + c) * 16 + d)

/-- The byte that a one-letter escape stands for. -/
def escaped? (b : UInt8) : Option UInt8 :=
  if b = 0x22 then some 0x22
  else if b = 0x5C then some 0x5C
  else if b = 0x2F then some 0x2F
  else if b = 0x62 then some 0x08
  else if b = 0x66 then some 0x0C
  else if b = 0x6E then some 0x0A
  else if b = 0x72 then some 0x0D
  else if b = 0x74 then some 0x09
  else none

/-- Whether a unit is the first of a pair. -/
def isLeading (u : Nat) : Bool := 0xD800 ≤ u && u < 0xDC00

/-- Whether a unit is the second of a pair. -/
def isTrailing (u : Nat) : Bool := 0xDC00 ≤ u && u < 0xE000

/-- The character of a pair. -/
def pairChar (u v : Nat) : Char := Char.ofNat (0x10000 + (u - 0xD800) * 0x400 + (v - 0xDC00))

/-- Reads a string behind its opening quote. The first argument is the first unit of a pair whose
second must follow, the second the bytes so far, the latest first. -/
def readChars : Option Nat → Bytes → Bytes → Except Stop (String × Bytes)
  | _, _, [] => stopAt .endInString []
  | some u, read, 0x5C :: 0x75 :: a :: b :: c :: d :: rest =>
    match unit? a b c d with
    | none => stopAt .badEscape rest
    | some v =>
      if isTrailing v then
        readChars none ((Utf8.encodeChar (pairChar u v)).reverse ++ read) rest
      else stopAt .loneSurrogate rest
  | some _, _, [0x5C] => stopAt .endInString []
  | some _, _, 0x5C :: b :: rest =>
    if b = 0x75 then stopAt .endInString [] else stopAt .halfPair rest
  | some _, _, _ :: rest => stopAt .halfPair rest
  | none, read, 0x22 :: rest =>
    match Utf8.decode? read.reverse with
    | none => stopAt .brokenText rest
    | some s => .ok (s, rest)
  | none, read, 0x5C :: 0x75 :: a :: b :: c :: d :: rest =>
    match unit? a b c d with
    | none => stopAt .badEscape rest
    | some u =>
      if isTrailing u then stopAt .loneSurrogate rest
      else if isLeading u then readChars (some u) read rest
      else readChars none ((Utf8.encodeChar (Char.ofNat u)).reverse ++ read) rest
  | none, _, [0x5C] => stopAt .endInString []
  | none, read, 0x5C :: b :: rest =>
    if b = 0x75 then stopAt .endInString []
    else
      match escaped? b with
      | none => stopAt .badEscape rest
      | some b => readChars none (b :: read) rest
  | none, read, b :: rest =>
    if b < 0x20 then stopAt .controlCharacter rest else readChars none (b :: read) rest

/-- Reads a string behind its opening quote. -/
def readString (input : Bytes) : Except Stop (String × Bytes) := readChars none [] input

/-- Passes over a string behind its opening quote. -/
def skipString : Bytes → Except Stop Bytes
  | [] => stopAt .endInString []
  | 0x22 :: rest => .ok rest
  | 0x5C :: 0x75 :: a :: b :: c :: d :: rest =>
    if (unit? a b c d).isSome then skipString rest else stopAt .badEscape rest
  | [0x5C] => stopAt .endInString []
  | 0x5C :: b :: rest =>
    if b = 0x75 then stopAt .endInString []
    else if (escaped? b).isSome then skipString rest
    else stopAt .badEscape rest
  | b :: rest => if b < 0x20 then stopAt .controlCharacter (b :: rest) else skipString rest

/-! ## Passing over values -/

/-- Whether a byte is a decimal digit. -/
def isDigit (b : UInt8) : Bool := 0x30 ≤ b && b ≤ 0x39

/-- Whether the input goes on with a digit. -/
def beginsWithDigit (input : Bytes) : Bool := (input.head?.map isDigit).getD false

/-- Passes over at least one digit, of which the first is read as such. -/
def skipDigits : Bytes → Except Stop Bytes
  | [] => stopAt .badNumber []
  | b :: rest => if isDigit b then .ok (rest.dropWhile isDigit) else stopAt .badNumber rest

/-- The input behind a plus or minus sign, if there is one. -/
def skipSign : Bytes → Bytes
  | b :: rest => if b = 0x2B ∨ b = 0x2D then rest else b :: rest
  | [] => []

/-- Passes over an `e`, a sign and digits, if there is an `e`. -/
def skipExponent : Bytes → Except Stop Bytes
  | [] => .ok []
  | b :: rest => if b = 0x65 ∨ b = 0x45 then skipDigits (skipSign rest) else .ok (b :: rest)

/-- Passes over a number behind its minus sign. A zero at its start stands alone. -/
def skipNumber (input : Bytes) : Except Stop Bytes := do
  let rest ← skipDigits input
  let rest ← match input with
    | 0x30 :: rest => if beginsWithDigit rest then stopPast .badNumber rest else pure rest
    | _ => pure rest
  match rest with
  | 0x2E :: rest =>
    if beginsWithDigit rest then skipExponent (rest.dropWhile isDigit)
    else stopPast .badNumber rest
  | rest => skipExponent rest

/-- An array or an object that was begun and not ended. -/
inductive Container where
  | list
  | object
  deriving DecidableEq, Repr

/-- Whether a byte ends a container. -/
def Container.endsWith (c : Container) (b : UInt8) : Bool :=
  match c with
  | .list => b == 0x5D
  | .object => b == 0x7D

/-- The problem of an input that ends inside a container. -/
def Container.cutOff : Container → Problem
  | .list => .endInList
  | .object => .endInObject

/-- The problem of an element that neither a comma nor the end follows. -/
def Container.goesOn : Container → Problem
  | .list => .listGoesOn
  | .object => .objectGoesOn

/-- Passes over a key and its colon. -/
def skipKey (input : Bytes) : Except Stop Bytes :=
  match skipBlank input with
  | [] => stopPast .endInObject []
  | 0x22 :: rest => do
    let rest ← skipString rest
    match skipBlank rest with
    | [] => stopPast .endInObject []
    | 0x3A :: rest => pure rest
    | rest => stopPast .colonWanted rest
  | rest => stopPast .keyWanted rest

/-- What passing over a value waits for. -/
inductive Awaited where
  | value
  /-- The first element of the innermost container, or its end. -/
  | element
  /-- A comma behind an element of the innermost container, or the end of the container. -/
  | comma
  deriving DecidableEq, Repr

/-- Passes over the value that is awaited and the rest of the open containers, the innermost
first. -/
def skipWithin : Nat → List Container → Awaited → Bytes → Except Stop Bytes
  | 0, _, _, input => stopAt .endInValue input
  | _ + 1, [], .comma, input => .ok input
  | _ + 1, [], .element, input => .ok input
  | fuel + 1, c :: outer, .element, input =>
    match skipBlank input with
    | [] => stopPast c.cutOff []
    | b :: rest =>
      if c.endsWith b then skipWithin fuel outer .comma rest
      else if c = .object then
        match skipKey (b :: rest) with
        | .error s => .error s
        | .ok rest => skipWithin fuel (c :: outer) .value rest
      else skipWithin fuel (c :: outer) .value (b :: rest)
  | fuel + 1, c :: outer, .comma, input =>
    match skipBlank input with
    | [] => stopPast c.cutOff []
    | b :: rest =>
      if b = 0x2C then
        if c = .object then
          match skipKey rest with
          | .error s => .error s
          | .ok rest => skipWithin fuel (c :: outer) .value rest
        else skipWithin fuel (c :: outer) .value rest
      else if c.endsWith b then skipWithin fuel outer .comma rest
      else stopPast c.goesOn (b :: rest)
  | fuel + 1, open_, .value, input =>
    let behind (answer : Except Stop Bytes) : Except Stop Bytes :=
      match answer with
      | .error s => .error s
      | .ok rest => skipWithin fuel open_ .comma rest
    match skipBlank input with
    | [] => stopPast .endInValue []
    | 0x6E :: rest => behind (readWord nullTail rest)
    | 0x74 :: rest => behind (readWord trueTail rest)
    | 0x66 :: rest => behind (readWord falseTail rest)
    | 0x22 :: rest => behind (skipString rest)
    | 0x2D :: rest => behind (skipNumber rest)
    | 0x5B :: rest => skipWithin fuel (.list :: open_) .element rest
    | 0x7B :: rest => skipWithin fuel (.object :: open_) .element rest
    | rest => if beginsWithDigit rest then behind (skipNumber rest) else stopPast .valueWanted rest

/-- Passes over a value. -/
def skipValue : Reader Unit := fun fuel input =>
  match skipWithin fuel [] .value input with
  | .error s => .error s
  | .ok rest => .ok ((), rest)

end Bundler.Json
