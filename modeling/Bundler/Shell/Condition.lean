import Bundler.Shell.Arithmetic
import Bundler.Shell.World
/-!
# Conditions

The conditions of `test` and `[`: comparisons of texts and numbers and questions about files, joined
by `!`, `-a`, `-o` and parentheses. A word that could be an operator is one only where operands
follow it.
-/

namespace Bundler.Shell

/-- What conditions can ask about. -/
structure Surroundings where
  world : World
  streams : List (Nat × Nat)
  directory : Path

/-- What is at the path that a word spells. -/
def Surroundings.status? (around : Surroundings) (s : Octets) : Option Status :=
  around.world.status? around.streams (pathOf around.directory s)

/-- Operators in front of one operand. -/
def unaryOperators : List String :=
  ["-r", "-w", "-x", "-e", "-f", "-d", "-c", "-b", "-p", "-u", "-g", "-k", "-s", "-t", "-z", "-n",
    "-h", "-O", "-G", "-L", "-S"]

/-- Operators between two operands. -/
def binaryOperators : List String :=
  ["=", "!=", "<", ">", "-eq", "-ne", "-ge", "-gt", "-le", "-lt", "-nt", "-ot", "-ef"]

/-- What a word is in a condition. -/
inductive ConditionSign where
  | operand
  | unary
  | binary
  | not
  | and
  | or
  | opens
  | closes
  | finish
  deriving DecidableEq, Repr

/-- What a word would be if it were an operator. -/
def operatorOf (s : Octets) : ConditionSign :=
  let s := String.ofList s
  if unaryOperators.contains s then .unary
  else if binaryOperators.contains s then .binary
  else
    match s with
    | "!" => .not
    | "-a" => .and
    | "-o" => .or
    | "(" => .opens
    | ")" => .closes
    | _ => .operand

/-- Whether a word with the given ones behind it is an operand, although it could be in front of
one. -/
def standsAlone : List Octets → Bool
  | [] => true
  | [_] => false
  | next :: _ => operatorOf next = .binary

/-- What the first of some words is. -/
def signOf : List Octets → ConditionSign
  | [] => .finish
  | s :: rest =>
    match operatorOf s with
    | .unary => if standsAlone rest then .operand else .unary
    | .opens => if rest.isEmpty then .operand else .opens
    | sign => sign

/-- A mistake that an operator makes. -/
def mistake {α : Type} (operator : Octets) (message : String) : Except Octets α :=
  .error (if operator.isEmpty then message.toList else operator ++ ": ".toList ++ message.toList)

/-- The number that a word spells. -/
def numberIn (s : Octets) : Except Octets Int :=
  match readNumber? 10 s with
  | some n => .ok n
  | none => .error ("Illegal number: ".toList ++ s)

/-- The answer about one operand. -/
def askOne (around : Surroundings) (operator : String) (s : Octets) : Except Octets Bool :=
  let status := around.status? s
  let ofKind (kind : Kind) : Except Octets Bool := .ok (status.any (·.kind = kind))
  let hasBits (bits : Nat) : Except Octets Bool := .ok (status.any fun t => t.mode &&& bits ≠ 0)
  match operator with
  | "-z" => .ok s.isEmpty
  | "-n" => .ok (! s.isEmpty)
  | "-t" => (numberIn s).map fun _ => false
  | "-e" => .ok status.isSome
  | "-r" => .ok status.isSome
  | "-w" => .ok status.isSome
  | "-O" => .ok status.isSome
  | "-G" => .ok status.isSome
  | "-f" => ofKind .file
  | "-d" => ofKind .directory
  | "-c" => ofKind .device
  | "-p" => ofKind .pipe
  | "-x" => hasBits 0o111
  | "-u" => hasBits 0o4000
  | "-g" => hasBits 0o2000
  | "-k" => hasBits 0o1000
  | "-s" => .ok (status.any fun t => 0 < t.size)
  | _ => .ok false

/-- The answer about two operands. -/
def askTwo (around : Surroundings) (operator : String) (a b : Octets) : Except Octets Bool :=
  let numbers (f : Int → Int → Bool) : Except Octets Bool := do
    return f (← numberIn a) (← numberIn b)
  let times (f : Int → Int → Bool) : Except Octets Bool :=
    match around.status? a, around.status? b with
    | some s, some t => .ok (f s.time t.time)
    | _, _ => .ok false
  match operator with
  | "=" => .ok (a = b)
  | "!=" => .ok (a ≠ b)
  | "<" => .ok (Octets.compare a b).isLT
  | ">" => .ok (Octets.compare a b).isGT
  | "-eq" => numbers fun a b => a = b
  | "-ne" => numbers fun a b => a ≠ b
  | "-ge" => numbers fun a b => b ≤ a
  | "-gt" => numbers fun a b => b < a
  | "-le" => numbers fun a b => a ≤ b
  | "-lt" => numbers fun a b => a < b
  | "-nt" => times fun a b => b < a
  | "-ot" => times fun a b => a < b
  | "-ef" =>
    let names (s : Octets) := ((around.status? s).bind (·.location)).map around.world.tree.names
    .ok ((names a).isSome && names a = names b)
  | _ => .ok false

section
variable (around : Surroundings)

/-! Reading leaves the last word that was used in front of the rest. -/

mutual

/-- The answer to conditions joined by `-o`. The flag says that the first word is an operand. -/
def askAny : Nat → (operand : Bool) → List Octets → Except Octets (Bool × List Octets)
  | 0, _, _ => mistake [] "argument expected"
  | n + 1, operand, words => do
    let (a, words) ← askAll n operand words
    if signOf (words.drop 1) = .or then
      let (b, words) ← askAny n false (words.drop 2)
      return (a || b, words)
    else return (a, words)

/-- The answer to conditions joined by `-a`. -/
def askAll : Nat → (operand : Bool) → List Octets → Except Octets (Bool × List Octets)
  | 0, _, _ => mistake [] "argument expected"
  | n + 1, operand, words => do
    let (a, words) ← askNot n operand words
    if signOf (words.drop 1) = .and then
      let (b, words) ← askAll n false (words.drop 2)
      return (a && b, words)
    else return (a, words)

/-- The answer to a condition, perhaps behind `!`. -/
def askNot : Nat → (operand : Bool) → List Octets → Except Octets (Bool × List Octets)
  | 0, _, _ => mistake [] "argument expected"
  | n + 1, operand, words => do
    if ! operand && signOf words = .not then
      let (a, rest) ← askNot n false (words.drop 1)
      return (! a, if (words.drop 1).isEmpty then words else rest)
    else ask n operand words

/-- The answer to a condition without signs that join others. -/
def ask : Nat → (operand : Bool) → List Octets → Except Octets (Bool × List Octets)
  | 0, _, _ => mistake [] "argument expected"
  | n + 1, operand, words => do
    let sign := if operand then .operand else signOf words
    match sign, words with
    | _, [] => return (false, [])
    | .finish, _ => return (false, words)
    | .opens, _ :: inside =>
      if signOf inside = .closes then return (false, inside)
      else
        let (a, rest) ← askAny n false inside
        if signOf (rest.drop 1) = .closes then return (a, rest.drop 1)
        else mistake [] "closing paren expected"
    | .unary, op :: rest =>
      match rest with
      | [] => mistake op "argument expected"
      | s :: _ => return (← askOne around (String.ofList op) s, rest)
    | _, a :: rest =>
      if signOf rest = .binary then
        match rest with
        | op :: b :: more => return (← askTwo around (String.ofList op) a b, b :: more)
        | op :: [] => mistake op "argument expected"
        | [] => return (! a.isEmpty, words)
      else return (! a.isEmpty, words)

end

/-- The answer to the condition that all words spell. -/
def askWords (operand : Bool) (words : List Octets) : Except Octets Bool := do
  match ← askAny around (8 * words.length + 8) operand words with
  | (_, last :: _ :: _) => mistake last "unexpected operator"
  | (a, _) => return a

/-- The answer to a condition, or its opposite. Three words with an operator between operands mean
just that. Around three or four words parentheses and `!` come first; such signs ask for the opposite
once, however many there are. -/
def conditionOf : Nat → (opposite : Bool) → List Octets → Except Octets Bool
  | 0, _, _ => return false
  | _ + 1, _, [] => return false
  | n + 1, opposite, words => do
    let isComparison := words.length = 3 && (words[1]?.any fun s => operatorOf s = .binary)
    let isShort := words.length = 3 || words.length = 4
    if isComparison then return xor opposite (← askWords around true words)
    else if isShort && words.head? = some ['('] && words.getLast? = some [')'] then
      return xor opposite (← askWords around false (words.drop 1).dropLast)
    else if isShort && words.head? = some ['!'] then conditionOf n true (words.drop 1)
    else return xor opposite (← askWords around false words)

/-- The answer to a condition. -/
def condition (words : List Octets) : Except Octets Bool :=
  conditionOf around (words.length + 1) false words

end
end Bundler.Shell
