import Bundler.Shell.Format
import Bundler.Shell.Regular
import Bundler.Shell.Tool.Call
/-!
# Tools for numbers

`seq` counts, in steps that may be decimal fractions, and `expr` computes the value of an expression
whose words are its arguments.
-/

namespace Bundler.Shell

/-! ## Counting -/

/-- A decimal fraction: a whole number of units, with a number of places that each unit takes. -/
structure Fraction where
  units : Int
  places : Nat
  /-- How many characters its spelling has. -/
  width : Nat
  deriving DecidableEq, Repr

/-- The number of units of a fraction when there are more places. -/
def Fraction.unitsAt (f : Fraction) (places : Nat) : Int := f.units * Nat.pow 10 (places - f.places)

/-- The fraction that a text spells. -/
def Fraction.read? (s : Octets) : Option Fraction :=
  let text := s.dropWhile isSpace
  let negative := text.head? == some '-'
  let digits := if negative || text.head? == some '+' then text.drop 1 else text
  let whole := digits.takeWhile Char.isDigit
  let rest := digits.drop whole.length
  let (behind, rest) : Octets × Octets := match rest with
    | '.' :: more =>
      let behind := more.takeWhile Char.isDigit
      (behind, more.drop behind.length)
    | _ => ([], rest)
  if whole.isEmpty && behind.isEmpty then none
  else
    let n : Int := Octets.valueOf 10 (whole ++ behind)
    let n := if negative then - n else n
    let width := (text.takeWhile fun c => c ≠ 'e' && c ≠ 'E').length -
      (if text.head? == some '+' then 1 else 0)
    match rest with
    | [] => some ⟨n, behind.length, if whole.isEmpty then width + 1 else width⟩
    | e :: exponent =>
      if e ≠ 'e' && e ≠ 'E' then none
      else
        let minus := exponent.head? == some '-'
        let digits := if minus || exponent.head? == some '+' then exponent.drop 1 else exponent
        match Octets.nat? digits with
        | none => none
        | some m =>
          let m := min m 400
          if minus then some ⟨n, behind.length + m, width + m⟩
          else
            let kept := behind.length - m
            some ⟨n * Nat.pow 10 (m - behind.length), kept, width + m⟩

/-- A fraction with a number of places, which has no more of them. -/
def shownUnits (units : Int) (places width : Nat) : Octets :=
  let digits := Octets.ofNat units.natAbs
  let digits := List.replicate (places + 1 - digits.length) '0' ++ digits
  let whole := digits.take (digits.length - places)
  let text := if places = 0 then whole else whole ++ '.' :: digits.drop (digits.length - places)
  let sign : Octets := if units < 0 then ['-'] else []
  sign ++ List.replicate (width - sign.length - text.length) '0' ++ text

/-- How `seq` shows its numbers. -/
structure SeqStyle where
  between : Octets
  wide : Bool
  format : Option Octets

/-- Reads the options of `seq`; a number may be negative, so that it is not mistaken for one. -/
def seqOptions : Nat → SeqStyle → List Octets → Except Octets (SeqStyle × List Octets)
  | 0, style, args => .ok (style, args)
  | n + 1, style, args =>
    match args with
    | ('-' :: rest) :: more =>
      let isNumber := rest.head?.any fun c => c.isDigit || c == '.'
      if rest.isEmpty || isNumber then .ok (style, args)
      else if rest = ['-'] then .ok (style, more)
      else
        let table := optionTable "f:s:w" ["f=format:", "s=separator:", "w=equal-width"]
        let read := match rest with
          | '-' :: name => readLong table more.head? name
          | _ => readLetters table more.head? rest
        match read with
        | .error e => .error e
        | .ok (options, used) =>
          let style := options.foldl (fun style o =>
            if o.1 = "s" then { style with between := o.2 }
            else if o.1 = "f" then { style with format := some o.2 }
            else if o.1 = "w" then { style with wide := true }
            else style) style
          seqOptions n style (if used then more.drop 1 else more)
    | _ => .ok (style, args)

/-- The directives of a format: what stands behind each percent sign. -/
def directivesOf : Octets → List Octets
  | '%' :: '%' :: rest => directivesOf rest
  | '%' :: rest => rest :: directivesOf rest
  | _ :: rest => directivesOf rest
  | [] => []

/-- Why a text is no format for one number. -/
def formatMistake? (format : Octets) : Option Octets :=
  let start := "format ".toList ++ quotedName format
  match directivesOf format with
  | [] => some (start ++ " has no % directive".toList)
  | [directive] =>
    let behind := (directive.dropWhile ("-+#0 '".toList.contains ·)).dropWhile Char.isDigit
    let behind := match behind with
      | '.' :: rest => rest.dropWhile Char.isDigit
      | rest => rest
    match behind with
    | [] => some (start ++ " ends in %".toList)
    | c :: _ =>
      if "aAeEfFgG".toList.contains c then none
      else some (start ++ " has unknown %".toList ++ c :: " directive".toList)
  | _ => some (start ++ " has too many % directives".toList)

/-- Shows numbers from one on in steps, as far as a last one; some of them at once. The first argument
bounds their number. -/
def showNumbers (call : Call) (between : Octets) (shown : Int → Octets) (step last : Int) :
    Nat → Nat → Octets → Int → Work Unit
  | 0, _, out, _ => call.put (out ++ ['\n'])
  | n + 1, count, out, i => do
    let next := i + step
    let out := out ++ shown i
    let goesOn := if 0 < step then next ≤ last else last ≤ next
    if ! goesOn then call.put (out ++ ['\n'])
    else if count < 200 then showNumbers call between shown step last n (count + 1) (out ++ between) next
    else
      call.put (out ++ between)
      if (← get).isNone then showNumbers call between shown step last n 0 [] next

/-- Shows numbers in a row. -/
def Tool.seq : Tool := fun call => do
  match seqOptions (call.args.length + 1) ⟨['\n'], false, none⟩ call.args with
  | .error message => call.refuse message
  | .ok (style, args) =>
    match style.format.bind formatMistake?, args.find? fun s => (Fraction.read? s).isNone with
    | some message, _ => call.gives 1 message
    | none, some wrong =>
      call.refuse ("invalid floating point argument: ".toList ++ quotedName wrong)
    | none, none =>
      if style.wide && style.format.isSome then
        call.refuse "format string may not be specified when printing equal width strings".toList
      else
        let one : Fraction := ⟨1, 0, 1⟩
        let go (first step last : Fraction) (given : Octets) : Work Nat := do
          if step.units = 0 then
            call.refuse ("invalid Zero increment value: ".toList ++ quotedName given)
          else
            let shownPlaces := max first.places step.places
            let places := max shownPlaces last.places
            let (i, d, n) := (first.unitsAt places, step.unitsAt places, last.unitsAt places)
            let point (f : Fraction) : Nat :=
              f.width + (shownPlaces - f.places) +
                (if f.places = 0 && 0 < shownPlaces then 1 else 0) -
                (f.places - shownPlaces) - (if 0 < f.places && shownPlaces = 0 then 1 else 0)
            let width := if style.wide then max (point first) (point last) else 0
            let shown (k : Int) : Octets :=
              let units := k / Nat.pow 10 (places - shownPlaces)
              let text := shownUnits units shownPlaces width
              match style.format with
              | none => text
              | some format =>
                let plain := format.flatMap fun c => if c == '\\' then ['\\', '\\'] else [c]
                (printFormat plain [shownUnits units shownPlaces 0]).written.reverse
            if (if 0 < d then i ≤ n else n ≤ i) then
              showNumbers call style.between shown d n ((n - i).natAbs / d.natAbs + 1) 0 [] i
            return 0
        match args.filterMap Fraction.read? with
        | [] => call.refuse "missing operand".toList
        | [last] => go one one last ['1']
        | [first, last] => go first one last ['1']
        | [first, step, last] => go first step last (args[1]?.getD [])
        | _ => call.refuse ("extra operand ".toList ++ quotedName (args[3]?.getD []))

/-! ## Expressions -/

/-- Why an expression has no value. -/
inductive ExprMistake where
  | noNumber
  | divisionByZero
  | missing (behind : Octets)
  | unexpected (word : Octets)
  | unclosed (behind : Octets)
  | badPattern
  deriving DecidableEq, Repr

/-- The message about a mistake. -/
def ExprMistake.message : ExprMistake → Octets
  | noNumber => "non-integer argument".toList
  | divisionByZero => "division by zero".toList
  | missing behind => "syntax error: missing argument after ".toList ++ quotedName behind
  | unexpected word => "syntax error: unexpected argument ".toList ++ quotedName word
  | unclosed behind => "syntax error: expecting ')' after ".toList ++ quotedName behind
  | badPattern => "Invalid regular expression".toList

/-- The whole number that a text is. -/
def wholeNumber? (s : Octets) : Option Int :=
  match s with
  | '-' :: digits => (Octets.nat? digits).map fun n => - (n : Int)
  | _ => (Octets.nat? s).map fun n => (n : Int)

/-- Whether a value counts as false. -/
def isNull (s : Octets) : Bool := s.isEmpty || wholeNumber? s = some 0

/-- The operators of `expr` by how closely they bind, the loosest first. -/
def exprLevels : List (List String) :=
  [["|"], ["&"], ["<", "<=", "=", "==", "!=", ">=", ">"], ["+", "-"], ["*", "/", "%"], [":"]]

/-- What a pattern matches at the start of a text: its group if it has one, or the number of its
characters. -/
def matchStart (text pattern : Octets) : Except ExprMistake Octets :=
  match Regular.read? pattern with
  | none => .error .badPattern
  | some (r, groups) =>
    match r.longest? text, groups with
    | some (n, _), 0 => .ok (Octets.ofNat n)
    | none, 0 => .ok ['0']
    | some (_, found), _ => .ok ((found.lookup 1).getD [])
    | none, _ => .ok []

/-- The result of an operator of `expr`. -/
def exprApply (op : String) (a b : Octets) : Except ExprMistake Octets := do
  let numbers (f : Int → Int → Except ExprMistake Int) : Except ExprMistake Octets :=
    match wholeNumber? a, wholeNumber? b with
    | some m, some n => (f m n).map Octets.ofInt
    | _, _ => .error .noNumber
  let compared (f : Ordering → Bool) : Except ExprMistake Octets :=
    let order := match wholeNumber? a, wholeNumber? b with
      | some m, some n => compare m n
      | _, _ => Octets.compare a b
    .ok (if f order then ['1'] else ['0'])
  let divided (f : Int → Int → Int) : Except ExprMistake Octets :=
    numbers fun m n => if n = 0 then .error .divisionByZero else .ok (f m n)
  match op with
  | "|" => return if isNull a then (if isNull b then ['0'] else b) else a
  | "&" => return if isNull a || isNull b then ['0'] else a
  | "<" => compared (·.isLT)
  | "<=" => compared (·.isLE)
  | "=" => compared (· = .eq)
  | "==" => compared (· = .eq)
  | "!=" => compared (· ≠ .eq)
  | ">=" => compared (·.isGE)
  | ">" => compared (·.isGT)
  | "+" => numbers fun m n => .ok (m + n)
  | "-" => numbers fun m n => .ok (m - n)
  | "*" => numbers fun m n => .ok (m * n)
  | "/" => divided Int.tdiv
  | "%" => divided Int.tmod
  | _ => matchStart a b

/-- The part of a text from a place on, with a length. -/
def textPart (text start size : Octets) : Octets :=
  match wholeNumber? start, wholeNumber? size with
  | some m, some n =>
    if 0 < m && 0 < n then (text.drop (m.toNat - 1)).take n.toNat else []
  | _, _ => []

/-- The place of the first character of a text that is one of some. -/
def firstAmong (text among : Octets) : Nat :=
  match text.findIdx? among.contains with
  | some n => n + 1
  | none => 0

mutual

/-- Computes operands joined by the operators of some levels. `last` is the word in front. What does
not count is read and not computed. -/
def readExpr : Nat → (counts : Bool) → List (List String) → (last : Octets) → List Octets →
    Except ExprMistake (Octets × Octets × List Octets)
  | 0, _, _, last, _ => .error (.missing last)
  | _ + 1, _, [], last, [] => .error (.missing last)
  | n + 1, counts, [], _, s :: rest => do
    let operand (last : Octets) (rest : List Octets) := readExpr n counts [] last rest
    match String.ofList s with
    | "(" =>
      match ← readExpr n counts exprLevels s rest with
      | (value, _, [')'] :: rest) => return (value, [')'], rest)
      | (_, last, []) => throw (.unclosed last)
      | (_, _, word :: _) => throw (.unclosed word)
    | ")" => throw (.unexpected s)
    | "+" =>
      match rest with
      | [] => throw (.missing s)
      | word :: rest => return (word, word, rest)
    | "length" =>
      let (value, last, rest) ← operand s rest
      return (Octets.ofNat value.length, last, rest)
    | "match" =>
      let (text, last, rest) ← operand s rest
      let (pattern, last, rest) ← operand last rest
      return (← if counts then matchStart text pattern else pure [], last, rest)
    | "index" =>
      let (text, last, rest) ← operand s rest
      let (among, last, rest) ← operand last rest
      return (Octets.ofNat (firstAmong text among), last, rest)
    | "substr" =>
      let (text, last, rest) ← operand s rest
      let (start, last, rest) ← operand last rest
      let (size, last, rest) ← operand last rest
      return (textPart text start size, last, rest)
    | _ => return (s, s, rest)
  | n + 1, counts, level :: closer, last, rest => do
    let (first, last, rest) ← readExpr n counts closer last rest
    readExprMore n counts level closer first last rest

/-- Computes what is joined to an operand by the operators of a level, from the left. -/
def readExprMore : Nat → (counts : Bool) → List String → List (List String) → Octets → Octets →
    List Octets → Except ExprMistake (Octets × Octets × List Octets)
  | 0, _, _, _, first, last, rest => .ok (first, last, rest)
  | n + 1, counts, level, closer, first, last, rest =>
    match rest with
    | op :: more =>
      let name := String.ofList op
      if level.contains name then do
        let decided := (name = "|" && ! isNull first) || (name = "&" && isNull first)
        let (second, last, rest) ← readExpr n (counts && ! decided) closer op more
        let value ←
          if ! counts then pure first
          else if decided then pure (if name = "|" then first else ['0'])
          else exprApply name first second
        readExprMore n counts level closer value last rest
      else .ok (first, last, rest)
    | [] => .ok (first, last, rest)

end

/-- Shows the value of an expression. -/
def Tool.expr : Tool := fun call => do
  let args := if call.args.head? = some "--".toList then call.args.drop 1 else call.args
  if args.isEmpty then call.refuseWith 2 "missing operand".toList
  else
    match readExpr (32 * args.length + 32) true exprLevels [] args with
    | .ok (value, _, []) =>
      call.put (value ++ ['\n'])
      return if isNull value then 1 else 0
    | .ok (_, _, s :: _) => call.gives 2 (ExprMistake.unexpected s).message
    | .error mistake => call.gives 2 mistake.message

end Bundler.Shell
