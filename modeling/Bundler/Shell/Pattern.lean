import Bundler.Shell.Octets
/-!
# Action patterns

Patterns in which `*` stands for any text, `?` for any character and `[a-z]` for one of a set.
Characters that were quoted stand for themselves: they carry a backslash in the text of a pattern.
-/

namespace Bundler.Shell

/-- A part of a bracket expression. -/
inductive BracketPart where
  | range (low high : Char)
  | named (cls : String)
  deriving DecidableEq, Repr

/-- One part of a pattern. -/
inductive PatternPart where
  | char (c : Char)
  | anyChar
  | anyText
  | oneOf (negated : Bool) (parts : List BracketPart)
  deriving DecidableEq, Repr

/-- A blank in the sense of `[:space:]`. -/
def isSpace (c : Char) : Bool := c == ' ' || ('\t' ≤ c && c ≤ '\r')

/-- Whether a character is printed with ink. -/
def isGraphic (c : Char) : Bool := '!' ≤ c && c ≤ '~'

/-- The characters of a named class; there are no others than ASCII ones in any. -/
def inClass : String → Char → Bool
  | "alnum", c => c.isAlphanum
  | "alpha", c => c.isAlpha
  | "blank", c => c == ' ' || c == '\t'
  | "cntrl", c => c < ' ' || c == Char.ofNat 0x7F
  | "digit", c => c.isDigit
  | "graph", c => isGraphic c
  | "lower", c => c.isLower
  | "print", c => isGraphic c || c == ' '
  | "punct", c => isGraphic c && ! c.isAlphanum
  | "space", c => isSpace c
  | "upper", c => c.isUpper
  | "xdigit", c => Octets.isDigitOf 16 c
  | _, _ => false

/-- The names of the classes. -/
def classNames : List String :=
  ["alnum", "alpha", "blank", "cntrl", "digit", "graph", "lower", "print", "punct", "space",
    "upper", "xdigit"]

/-- Whether a character belongs to a part of a bracket expression. -/
def BracketPart.admits (c : Char) : BracketPart → Bool
  | .range low high => low ≤ c && c ≤ high
  | .named cls => inClass cls c

/-- The ends of a text, the whole text first. -/
def suffixes : List Char → List (List Char)
  | [] => [[]]
  | c :: rest => (c :: rest) :: suffixes rest

/-- Whether a text has the form of a pattern. -/
def matchesAll : List PatternPart → List Char → Bool
  | [], text => text.isEmpty
  | .char c :: rest, d :: text => c == d && matchesAll rest text
  | .anyChar :: rest, _ :: text => matchesAll rest text
  | .oneOf negated parts :: rest, d :: text =>
    (parts.any (·.admits d) != negated) && matchesAll rest text
  | .anyText :: rest, text => (suffixes text).any (matchesAll rest)
  | _ :: _, [] => false

/-! ## Reading -/

/-- The name of a class at the start of a text, and what follows its end. -/
def readClass (s : List Char) : Option (String × List Char) :=
  classNames.findSome? fun name =>
    let written := ':' :: name.toList ++ [':', ']']
    if written.isPrefixOf s then some (name, s.drop written.length) else none

/-- A character that may be quoted, and what follows it. -/
def readLiteral : List Char → Option (Char × List Char)
  | '\\' :: c :: rest => some (c, rest)
  | c :: rest => some (c, rest)
  | [] => none

/-- Reads a bracket expression up to its end. The first character may be a closing bracket that
ends nothing. The first argument bounds the number of parts. -/
def readBracket : Nat → (first : Bool) → List Char → Option (List BracketPart × List Char)
  | 0, _, _ => none
  | _ + 1, _, [] => none
  | n + 1, first, c :: rest =>
    if c == ']' && ! first then some ([], rest)
    else
      match if c == '[' then readClass rest else none with
      | some (name, rest) =>
        (readBracket n false rest).map fun (parts, rest) => (.named name :: parts, rest)
      | none =>
        match readLiteral (c :: rest) with
        | none => none
        | some (low, '-' :: high :: rest) =>
          if high == ']' then
            (readBracket n false ('-' :: high :: rest)).map fun (parts, rest) =>
              (.range low low :: parts, rest)
          else
            match readLiteral (high :: rest) with
            | none => none
            | some (high, rest) =>
              (readBracket n false rest).map fun (parts, rest) => (.range low high :: parts, rest)
        | some (low, rest) =>
          (readBracket n false rest).map fun (parts, rest) => (.range low low :: parts, rest)

/-- The pattern that a text spells. The first argument bounds the number of parts. -/
def patternOf : Nat → List Char → List PatternPart
  | 0, _ => []
  | _ + 1, [] => []
  | n + 1, '*' :: rest => .anyText :: patternOf n rest
  | n + 1, '?' :: rest => .anyChar :: patternOf n rest
  | n + 1, '\\' :: c :: rest => .char c :: patternOf n rest
  | n + 1, '[' :: rest =>
    let negated := rest.head? == some '!'
    match readBracket (rest.length + 1) true (if negated then rest.drop 1 else rest) with
    | some (parts, rest) => .oneOf negated parts :: patternOf n rest
    | none => .char '[' :: patternOf n rest
  | n + 1, c :: rest => .char c :: patternOf n rest

/-- The pattern that a text spells. -/
def readPattern (s : List Char) : List PatternPart := patternOf (s.length + 1) s

/-! ## Cutting -/

/-- What stands where one of several arguments ends: no value has it. -/
def argumentEnd : Char := '\x00'

/-- What is cut from a value by a pattern. -/
inductive Cut where
  | shortestStart
  | longestStart
  | shortestEnd
  | longestEnd
  deriving DecidableEq, Repr

/-- The value without the start or end that has the form of the pattern. Where the value is several
arguments, no more than the first of those in the start or end is looked at. -/
def Cut.apply (cut : Cut) (pattern : List PatternPart) (value : List Char) : List Char :=
  let fits (part : List Char) := matchesAll pattern (part.takeWhile (· ≠ argumentEnd))
  let lengths := List.range (value.length + 1)
  match cut with
  | .shortestStart =>
    ((lengths.find? fun n => fits (value.take n)).map fun n => value.drop n).getD value
  | .longestStart =>
    ((lengths.reverse.find? fun n => fits (value.take n)).map fun n => value.drop n).getD value
  | .shortestEnd =>
    ((lengths.reverse.find? fun n => fits (value.drop n)).map fun n => value.take n).getD value
  | .longestEnd =>
    ((lengths.find? fun n => fits (value.drop n)).map fun n => value.take n).getD value

end Bundler.Shell
