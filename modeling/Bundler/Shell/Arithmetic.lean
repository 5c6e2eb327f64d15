import Bundler.Shell.Command
/-!
# Arithmetic of the shell

Expressions over whole numbers of 64 bits, as they stand between `$((` and `))`. `Expression.read`
reads a text, and `Expression.value` computes, where the variables are those of any monad. Where a
text is no expression, what stands before the mistake is computed, and then it is met.
-/

namespace Bundler.Shell

/-! ## Numbers -/

/-- One more than the largest number. -/
def numberLimit : Nat := 9223372036854775808

/-- A number as far as 64 bits hold it. -/
def wrap (n : Int) : Int := Int.bmod n (2 * numberLimit)

/-- Blanks around a number. -/
def dropSpace (s : Octets) : Octets := s.dropWhile isSpace

/-- The number at the start of a text, whether it is too large, and what follows it. A base of 0
lets the number choose: `0x` is for 16 and `0` for 8. -/
def readDigits (base : Nat) (s : Octets) : Option (Nat × Octets) :=
  let plain (base : Nat) (s : Octets) : Option (Nat × Octets) :=
    let digits := s.takeWhile (Octets.isDigitOf base)
    if digits.isEmpty then none else some (Octets.valueOf base digits, s.drop digits.length)
  if base ≠ 0 then plain base s
  else
    match s with
    | '0' :: x :: rest =>
      if x == 'x' || x == 'X' then
        match plain 16 rest with
        | some r => some r
        | none => some (0, x :: rest)
      else plain 8 s
    | _ => plain 10 s

/-- The number that a whole text spells, with blanks around it and a sign. Without digits it is 0
if the base may be chosen, and none else. -/
def readNumber? (base : Nat) (s : Octets) : Option Int :=
  let start := dropSpace s
  let negative := start.head? == some '-'
  let unsigned := if negative || start.head? == some '+' then start.drop 1 else start
  match readDigits base unsigned with
  | none => if base = 0 ∧ (dropSpace s).isEmpty then some 0 else none
  | some (n, rest) =>
    let value : Int := if negative then - (n : Int) else n
    if (dropSpace rest).isEmpty ∧ - (numberLimit : Int) ≤ value ∧ value < numberLimit then
      some value
    else none

/-! ## Expressions -/

/-- What joins two values. -/
inductive BinaryOp where
  | mul | div | rem | add | sub | shiftLeft | shiftRight
  | lt | le | gt | ge | eq | ne | bitAnd | bitXor | bitOr
  deriving DecidableEq, Repr

/-- An expression. -/
inductive Expression where
  | number (n : Int)
  | variable (name : String)
  | negate (e : Expression)
  | not (e : Expression)
  | complement (e : Expression)
  | binary (op : BinaryOp) (a b : Expression)
  | and (a b : Expression)
  | or (a b : Expression)
  | choose (condition yes no : Expression)
  /-- An assignment; with an operation, of its result with the value before. -/
  | assign (name : String) (op : Option BinaryOp) (e : Expression)
  /-- A mistake in the text: no value begins here. -/
  | mistake (message : String)
  /-- A mistake in the text behind an expression. -/
  | mistakeAfter (e : Expression) (message : String)
  deriving DecidableEq, Repr

/-- A word or sign of an expression. -/
inductive Lexeme where
  | number (n : Int)
  | name (s : String)
  | sign (s : String)
  deriving DecidableEq, Repr

/-- Signs, longer ones before their beginnings. -/
def arithmeticSigns : List String :=
  ["<<=", ">>=", "<<", ">>", "<=", ">=", "==", "!=", "&&", "||", "*=", "/=", "%=", "+=", "-=", "&=",
    "^=", "|=", "<", ">", "=", "!", "&", "|", "^", "*", "/", "%", "+", "-", "~", "(", ")", "?", ":"]

/-- The words and signs of a text; another character is a sign that fits nowhere. The first argument
bounds their number. -/
def lexemes : Nat → Octets → List Lexeme
  | 0, _ => []
  | _ + 1, [] => []
  | n + 1, c :: rest =>
    if c == ' ' || c == '\t' || c == '\n' then lexemes n rest
    else if isNameStart c then
      let name := (c :: rest).takeWhile isNameChar
      .name (String.ofList name) :: lexemes n ((c :: rest).drop name.length)
    else
      match readDigits 0 (c :: rest) with
      | some (value, rest) => .number (min value (numberLimit - 1)) :: lexemes n rest
      | none =>
        match arithmeticSigns.find? fun s => s.toList.isPrefixOf (c :: rest) with
        | some s => .sign s :: lexemes n ((c :: rest).drop s.length)
        | none => [.sign (String.ofList [c])]

/-- The operations by how closely they bind, the closest first. -/
def binaryLevels : List (List (String × BinaryOp)) :=
  [[("*", .mul), ("/", .div), ("%", .rem)], [("+", .add), ("-", .sub)],
    [("<<", .shiftLeft), (">>", .shiftRight)],
    [("<", .lt), ("<=", .le), (">", .gt), (">=", .ge)], [("==", .eq), ("!=", .ne)],
    [("&", .bitAnd)], [("^", .bitXor)], [("|", .bitOr)]]

/-- The operation of an assignment sign; the sign alone has none. -/
def assignmentOp? (s : String) : Option (Option BinaryOp) :=
  if s = "=" then some none
  else
    (binaryLevels.flatten.find? fun (sign, op) =>
      sign ++ "=" = s && ! [BinaryOp.lt, .gt, .eq, .ne, .le, .ge].contains op).map
        fun (_, op) => some op

/-- The rest of an expression in reading. -/
abbrev Lexemes := List Lexeme

/-- What is read where a value has to begin and none does. -/
def noValue : Expression × Lexemes := (.mistake "expecting primary", [])

mutual

/-- Reads a value with the signs in front of it. -/
def readPrimary : Nat → Lexemes → Expression × Lexemes
  | n + 1, .sign "(" :: rest =>
    match readAssignment n rest with
    | (e, .sign ")" :: rest) => (e, rest)
    | (e, _) => (.mistakeAfter e "expecting ')'", [])
  | _ + 1, .number v :: rest => (.number v, rest)
  | _ + 1, .name s :: rest => (.variable s, rest)
  | n + 1, .sign "+" :: rest => readPrimary n rest
  | n + 1, .sign "-" :: rest => let (e, rest) := readPrimary n rest; (.negate e, rest)
  | n + 1, .sign "!" :: rest => let (e, rest) := readPrimary n rest; (.not e, rest)
  | n + 1, .sign "~" :: rest => let (e, rest) := readPrimary n rest; (.complement e, rest)
  | _, _ => noValue

/-- Reads values joined by operations of some levels, the last of which bind most closely. -/
def readBinary : Nat → List (List (String × BinaryOp)) → Lexemes → Expression × Lexemes
  | 0, _, _ => noValue
  | n + 1, [], rest => readPrimary n rest
  | n + 1, level :: closer, rest =>
    let (first, rest) := readBinary n closer rest
    readMore n level closer first rest

/-- Reads what is joined to a value by the operations of a level, from the left. -/
def readMore : Nat → List (String × BinaryOp) → List (List (String × BinaryOp)) → Expression →
    Lexemes → Expression × Lexemes
  | 0, _, _, first, rest => (first, rest)
  | n + 1, level, closer, first, rest =>
    match rest with
    | .sign s :: rest' =>
      match level.lookup s with
      | none => (first, rest)
      | some op =>
        let (second, rest) := readBinary n closer rest'
        readMore n level closer (.binary op first second) rest
    | _ => (first, rest)

/-- Reads values joined by `&&`. -/
def readAnd : Nat → Lexemes → Expression × Lexemes
  | 0, _ => noValue
  | n + 1, rest =>
    match readBinary n binaryLevels.reverse rest with
    | (a, .sign "&&" :: rest) => let (b, rest) := readAnd n rest; (.and a b, rest)
    | r => r

/-- Reads values joined by `||`. -/
def readOr : Nat → Lexemes → Expression × Lexemes
  | 0, _ => noValue
  | n + 1, rest =>
    match readAnd n rest with
    | (a, .sign "||" :: rest) => let (b, rest) := readOr n rest; (.or a b, rest)
    | r => r

/-- Reads a choice between two values. -/
def readChoice : Nat → Lexemes → Expression × Lexemes
  | 0, _ => noValue
  | n + 1, rest =>
    match readOr n rest with
    | (condition, .sign "?" :: rest) =>
      match readAssignment n rest with
      | (yes, .sign ":" :: rest) =>
        let (no, rest) := readChoice n rest
        (.choose condition yes no, rest)
      | (yes, _) => (.choose condition (.mistakeAfter yes "expecting ':'") (.number 0), [])
    | r => r

/-- Reads a whole expression. -/
def readAssignment : Nat → Lexemes → Expression × Lexemes
  | 0, _ => noValue
  | n + 1, rest =>
    match rest with
    | .name name :: .sign s :: rest' =>
      match assignmentOp? s with
      | some op => let (e, rest) := readAssignment n rest'; (.assign name op e, rest)
      | none => readChoice n rest
    | _ => readChoice n rest

end

/-- Reads an expression. -/
def Expression.read (s : Octets) : Expression :=
  match readAssignment (16 * s.length + 64) (lexemes (s.length + 1) s) with
  | (e, []) => e
  | (e, _) => .mistakeAfter e "expecting EOF"

/-- The first mistake of the text that an expression was read from. -/
def Expression.mistake? : Expression → Option String
  | .number _ => none
  | .variable _ => none
  | .negate e => e.mistake?
  | .not e => e.mistake?
  | .complement e => e.mistake?
  | .binary _ a b => a.mistake? <|> b.mistake?
  | .and a b => a.mistake? <|> b.mistake?
  | .or a b => a.mistake? <|> b.mistake?
  | .choose condition yes no => condition.mistake? <|> yes.mistake? <|> no.mistake?
  | .assign _ _ e => e.mistake?
  | .mistake message => some message
  | .mistakeAfter e message => e.mistake? <|> some message

/-! ## Values -/

/-- The number that stands for a truth value. -/
def truth (b : Bool) : Int := if b then 1 else 0

/-- The bits of a number, as a natural number. -/
def bitsOf (n : Int) : Nat := (n % (2 * numberLimit)).toNat

/-- The result of an operation; a division by zero has none. -/
def BinaryOp.apply (op : BinaryOp) (a b : Int) : Option Int :=
  match op with
  | .mul => some (wrap (a * b))
  | .div => if b = 0 then none else some (wrap (a.tdiv b))
  | .rem => if b = 0 then none else some (a.tmod b)
  | .add => some (wrap (a + b))
  | .sub => some (wrap (a - b))
  | .shiftLeft => some (wrap (bitsOf a <<< (bitsOf b % 64) : Nat))
  | .shiftRight => some (a >>> (bitsOf b % 64))
  | .lt => some (truth (a < b))
  | .le => some (truth (a ≤ b))
  | .gt => some (truth (b < a))
  | .ge => some (truth (b ≤ a))
  | .eq => some (truth (a = b))
  | .ne => some (truth (a ≠ b))
  | .bitAnd => some (wrap (bitsOf a &&& bitsOf b : Nat))
  | .bitXor => some (wrap (bitsOf a ^^^ bitsOf b : Nat))
  | .bitOr => some (wrap (bitsOf a ||| bitsOf b : Nat))

/-- How an expression reads and sets variables, and what it does about mistakes. -/
structure Variables (m : Type → Type) where
  get : String → m Int
  set : String → Int → m Unit
  /-- Meets a mistake; nothing is computed behind it. -/
  fail : String → m Int

/-- The value of an expression. What a condition leaves out is not computed, but looked through for
mistakes. -/
def Expression.value {m : Type → Type} [Monad m] (vars : Variables m) : Expression → m Int
  | .number n => pure n
  | .variable name => vars.get name
  | .negate e => do return wrap (- (← e.value vars))
  | .not e => do return truth ((← e.value vars) = 0)
  | .complement e => do return - (← e.value vars) - 1
  | .binary op a b => do
    let a ← a.value vars
    let b ← b.value vars
    result op a b
  | .and a b => do
    if (← a.value vars) = 0 then leave b 0 else return truth ((← b.value vars) ≠ 0)
  | .or a b => do
    if (← a.value vars) ≠ 0 then leave b 1 else return truth ((← b.value vars) ≠ 0)
  | .choose condition yes no => do
    if (← condition.value vars) ≠ 0 then
      let v ← yes.value vars
      leave no v
    else
      let _ ← leave yes 0
      no.value vars
  | .assign name op e => do
    let v ← e.value vars
    let v ← match op with
      | none => pure v
      | some op => do result op (← vars.get name) v
    vars.set name v
    return v
  | .mistake message => vars.fail message
  | .mistakeAfter e message => do
    let _ ← e.value vars
    vars.fail message
where
  /-- The result of an operation. -/
  result (op : BinaryOp) (a b : Int) : m Int :=
    match op.apply a b with
    | some v => return v
    | none => vars.fail "division by zero"
  /-- A value, where an expression is left out. -/
  leave (e : Expression) (v : Int) : m Int :=
    match e.mistake? with
    | some message => vars.fail message
    | none => return v

end Bundler.Shell
