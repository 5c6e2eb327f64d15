import Bundler.Shell.Pattern
/-!
# Regular expressions

Basic regular expressions, in which groups stand between `\(` and `\)`. A match begins where the text
does and is as long as it can be; a part takes as much as the parts behind it allow.
-/

namespace Bundler.Shell

/-- A regular expression. -/
inductive Regular where
  | empty
  | char (c : Char)
  | any
  | oneOf (negated : Bool) (parts : List BracketPart)
  /-- The start of the text. -/
  | start
  /-- The end of the text. -/
  | finish
  | group (number : Nat) (inner : Regular)
  /-- What a group has matched. -/
  | back (number : Nat)
  | both (first second : Regular)
  | either (first second : Regular)
  /-- As often as a number says at least, and another one at most. -/
  | repeated (inner : Regular) (least : Nat) (most : Option Nat)
  deriving Repr

namespace Regular

/-! ## Matching -/

/-- How far a match has come. -/
structure State where
  /-- What is left of the text. -/
  rest : Octets
  /-- How many characters were matched. -/
  taken : Nat
  /-- What groups have matched, the latest first. -/
  groups : List (Nat × Octets)
  deriving DecidableEq, Repr

/-- Repeats a step from a state, as often as it can be at first. The first argument bounds the number
of steps; a step that takes nothing is not repeated. -/
def iterate (step : State → List State) : Nat → Nat → Option Nat → State → List State
  | 0, _, _, s => [s]
  | n + 1, least, most, s =>
    let more :=
      if most = some 0 then []
      else
        (step s).flatMap fun t =>
          if t.taken = s.taken then (if least = 0 then [] else [t])
          else iterate step n (least - 1) (most.map (· - 1)) t
    if least = 0 then more ++ [s] else more

/-- Takes one character if it is one of those that are wanted. -/
def State.take (s : State) (wanted : Char → Bool) : List State :=
  match s.rest with
  | c :: rest => if wanted c then [{ s with rest, taken := s.taken + 1 }] else []
  | [] => []

/-- The states in which a match may go on, those that are preferred first. -/
def step : Regular → State → List State
  | empty, s => [s]
  | char c, s => s.take (· == c)
  | any, s => s.take fun _ => true
  | oneOf negated parts, s => s.take fun c => parts.any (·.admits c) ≠ negated
  | start, s => if s.taken = 0 then [s] else []
  | finish, s => if s.rest.isEmpty then [s] else []
  | group n r, s => (step r s).map fun t =>
      { t with groups := (n, s.rest.take (t.taken - s.taken)) :: t.groups }
  | back n, s =>
    let text := (s.groups.lookup n).getD []
    if text.isPrefixOf s.rest then
      [{ s with rest := s.rest.drop text.length, taken := s.taken + text.length }]
    else []
  | both r q, s => (step r s).flatMap (step q)
  | either r q, s => step r s ++ step q s
  | repeated r least most, s =>
    iterate (step r) (s.rest.length + least + 1) least most s

/-- The longest match at the start of a text: how many characters it has, and what its groups
matched. -/
def longest? (r : Regular) (text : Octets) : Option (Nat × List (Nat × Octets)) :=
  (r.step ⟨text, 0, []⟩).foldl (fun best s =>
    if best.all (·.1 < s.taken) then some (s.taken, s.groups) else best) none

/-! ## Reading -/

/-- Reads the parts of a bracket expression behind its opening bracket. The first argument bounds
their number. -/
def readBracket : Nat → (first : Bool) → Octets → Option (List BracketPart × Octets)
  | 0, _, _ => none
  | _ + 1, _, [] => none
  | n + 1, first, c :: rest =>
    if c == ']' && ! first then some ([], rest)
    else
      match if c == '[' then readClass rest else none with
      | some (name, rest) => (readBracket n false rest).map fun (parts, rest) =>
          (.named name :: parts, rest)
      | none =>
        match rest with
        | '-' :: d :: more =>
          if d == ']' then (readBracket n false rest).map fun (parts, rest) =>
              (.range c c :: parts, rest)
          else (readBracket n false more).map fun (parts, rest) => (.range c d :: parts, rest)
        | _ => (readBracket n false rest).map fun (parts, rest) => (.range c c :: parts, rest)

/-- Reads the numbers of `\{2,3\}` behind its opening. -/
def readInterval? (s : Octets) : Option (Nat × Option Nat × Octets) :=
  let low := s.takeWhile Char.isDigit
  let least := Octets.valueOf 10 low
  match s.drop low.length with
  | ',' :: more =>
    let high := more.takeWhile Char.isDigit
    let most := if high.isEmpty then none else some (Octets.valueOf 10 high)
    match more.drop high.length with
    | '\\' :: '\x7d' :: rest => if most.any (· < least) then none else some (least, most, rest)
    | _ => none
  | '\\' :: '\x7d' :: rest => if low.isEmpty then none else some (least, some least, rest)
  | _ => none

/-- The characters of words. -/
def wordParts : List BracketPart := [.named "alnum", .range '_' '_']

mutual

/-- Reads expressions joined by `\|`, up to the end or a closing `\)`. `number` is that of the next
group; it comes back with what follows. The first argument bounds the number of steps. -/
def readEither : Nat → Nat → Octets → Option (Regular × Nat × Octets)
  | 0, _, _ => none
  | n + 1, number, s => do
    let (first, number, rest) ← readItems n number true .empty s
    match rest with
    | '\\' :: '|' :: more =>
      let (second, number, rest) ← readEither n number more
      return (.either first second, number, rest)
    | _ => return (first, number, rest)

/-- Reads expressions that follow each other, behind those that were read. -/
def readItems : Nat → Nat → (first : Bool) → Regular → Octets → Option (Regular × Nat × Octets)
  | 0, _, _, _, _ => none
  | n + 1, number, first, before, s =>
    let item (r : Regular) (number : Nat) (rest : Octets) : Option (Regular × Nat × Octets) := do
      let (r, rest) ← readCount n r rest
      readItems n number false (.both before r) rest
    match s with
    | [] => some (before, number, [])
    | '\\' :: ')' :: _ => some (before, number, s)
    | '\\' :: '|' :: _ => some (before, number, s)
    | '\\' :: '(' :: rest => do
      let (inner, next, rest) ← readEither n (number + 1) rest
      match rest with
      | '\\' :: ')' :: rest => item (.group number inner) next rest
      | _ => none
    | '\\' :: 'w' :: rest => item (.oneOf false wordParts) number rest
    | '\\' :: 'W' :: rest => item (.oneOf true wordParts) number rest
    | '\\' :: 's' :: rest => item (.oneOf false [.named "space"]) number rest
    | '\\' :: 'S' :: rest => item (.oneOf true [.named "space"]) number rest
    | '\\' :: c :: rest =>
      if '1' ≤ c && c ≤ '9' then
        if c.toNat - 48 < number then item (.back (c.toNat - 48)) number rest else none
      else item (.char c) number rest
    | ['\\'] => none
    | '^' :: rest =>
      if first then readItems n number true (.both before .start) rest
      else item (.char '^') number rest
    | '$' :: rest =>
      let ends := match rest with
        | [] => true
        | '\\' :: ')' :: _ => true
        | '\\' :: '|' :: _ => true
        | _ => false
      if ends then readItems n number false (.both before .finish) rest
      else item (.char '$') number rest
    | '*' :: rest =>
      if first then item (.char '*') number rest else readItems n number false before rest
    | '.' :: rest => item .any number rest
    | '[' :: '^' :: rest => do
      let (parts, rest) ← readBracket (rest.length + 1) true rest
      item (.oneOf true parts) number rest
    | '[' :: rest => do
      let (parts, rest) ← readBracket (rest.length + 1) true rest
      item (.oneOf false parts) number rest
    | c :: rest => item (.char c) number rest

/-- Reads how often an expression is repeated. -/
def readCount : Nat → Regular → Octets → Option (Regular × Octets)
  | 0, _, _ => none
  | n + 1, r, s =>
    match s with
    | '*' :: rest => readCount n (.repeated r 0 none) rest
    | '\\' :: '+' :: rest => readCount n (.repeated r 1 none) rest
    | '\\' :: '?' :: rest => readCount n (.repeated r 0 (some 1)) rest
    | '\\' :: '\x7b' :: rest => do
      let (least, most, rest) ← readInterval? rest
      readCount n (.repeated r least most) rest
    | _ => some (r, s)

end

/-- The expression that a text spells, and how many groups it has. -/
def read? (s : Octets) : Option (Regular × Nat) := do
  let (r, number, rest) ← readEither (4 * s.length + 8) 1 s
  if rest.isEmpty then return (r, number - 1) else none

end Regular
end Bundler.Shell
