import Bundler.Decimal.Places
import Bundler.Decimal.Spelled
import Bundler.Shell.Arithmetic
/-!
# Formatted output

What `echo` and `printf` write: escapes with a backslash, and formats in which directives like
`%-5s` and `%03d` are filled from arguments. A format is used again until all arguments are.
-/

namespace Bundler.Shell

/-! ## Escapes -/

/-- The character that an escape letter stands for. -/
def escapeLetter? : Char → Option Char
  | '\\' => some '\\'
  | 'a' => some (Char.ofNat 7)
  | 'b' => some (Char.ofNat 8)
  | 'e' => some (Char.ofNat 27)
  | 'f' => some (Char.ofNat 12)
  | 'n' => some '\n'
  | 'r' => some '\r'
  | 't' => some '\t'
  | 'v' => some (Char.ofNat 11)
  | _ => none

/-- The character of a number in an escape; it keeps its low eight bits. -/
def byteChar (n : Nat) : Char := Char.ofNat (n % 256)

/-- The character that an escape stands for, and what follows it; the input is behind the backslash.
An unknown escape is a backslash. -/
def readEscape (s : Octets) : Char × Octets :=
  let digits := (s.take 3).takeWhile (Octets.isDigitOf 8)
  if digits.isEmpty then
    match s with
    | c :: rest =>
      match escapeLetter? c with
      | some d => (d, rest)
      | none => ('\\', s)
    | [] => ('\\', [])
  else (byteChar (Octets.valueOf 8 digits), s.drop digits.length)

/-- A text with its escapes replaced, and whether `\c` ends all output behind it. Numbers may begin
with a zero more. The first argument bounds the number of characters. -/
def unescape : Nat → Octets → Octets × Bool
  | 0, _ => ([], false)
  | _ + 1, [] => ([], false)
  | _ + 1, '\\' :: 'c' :: _ => ([], true)
  | n + 1, '\\' :: rest =>
    let start := if rest.head? == some '0' && (rest.drop 1).head?.any (Octets.isDigitOf 8)
      then rest.drop 1 else rest
    let (c, rest) := readEscape start
    let (more, ends) := unescape n rest
    (c :: more, ends)
  | n + 1, c :: rest =>
    let (more, ends) := unescape n rest
    (c :: more, ends)

/-- What `echo` writes. A first argument `-n` leaves the line open. -/
def echoText (args : List Octets) : Octets :=
  let isOpen := args.head? = some ['-', 'n']
  let text := Octets.joined [' '] (if isOpen then args.drop 1 else args)
  let (text, ends) := unescape (text.length + 1) text
  if ends || isOpen then text else text ++ ['\n']

/-! ## Directives -/

/-- A directive of a format. -/
structure Directive where
  left : Bool
  plus : Bool
  space : Bool
  alternate : Bool
  zero : Bool
  width : Nat
  precision : Option Nat
  letter : Char
  deriving DecidableEq, Repr

/-- What is being written: the text so far, with the last character first, the arguments that are
left, the warnings, and whether the output is ended. -/
structure Printing where
  written : Octets
  args : List Octets
  warnings : List Octets
  ended : Bool
  /-- The mistake that ended the output. -/
  mistake : Option Octets

/-- Adds a text. -/
def Printing.add (p : Printing) (text : Octets) : Printing :=
  { p with written := text.reverse ++ p.written }

/-- Takes an argument. -/
def Printing.take (p : Printing) : Option Octets × Printing :=
  (p.args.head?, { p with args := p.args.drop 1 })

/-- A text in the width of a directive. -/
def Directive.fit (d : Directive) (text : Octets) : Octets :=
  let gap := List.replicate (d.width - text.length) ' '
  if d.left then text ++ gap else gap ++ text

/-- Digits behind a sign, with the zeros that a directive asks for. -/
def Directive.fitNumber (d : Directive) (sign digits : Octets) : Octets :=
  let digits := match d.precision with
    | some n => List.replicate (n - digits.length) '0' ++ digits
    | none =>
      if d.zero && ! d.left then
        List.replicate (d.width - (sign.length + digits.length)) '0' ++ digits
      else digits
  d.fit (sign ++ digits)

/-- The digits of a number in a base, lower-case ones. -/
def digitsIn (base n : Nat) : Octets := Nat.toDigits base n

/-- The number of an argument, and a warning if it is none. A quote makes the character behind it
the number. A number that is too large is cut to the range; one that is too small becomes `below`. -/
def numberArgument (low high below : Int) (arg : Option Octets) : Int × List Octets :=
  match arg with
  | none => (0, [])
  | some [] => (0, [])
  | some s =>
    match s with
    | '"' :: rest => ((rest.head?.map Char.toNat).getD 0, [])
    | '\x27' :: rest => ((rest.head?.map Char.toNat).getD 0, [])
    | _ =>
      let start := dropSpace s
      let negative := start.head? == some '-'
      let unsigned := if negative || start.head? == some '+' then start.drop 1 else start
      match readDigits 0 unsigned with
      | none => (0, [s ++ ": expected numeric value".toList])
      | some (n, rest) =>
        let value : Int := if negative then - (n : Int) else n
        let cut := if value < low then below else min high value
        if ! rest.isEmpty then (cut, [s ++ ": not completely converted".toList])
        else if cut ≠ value then (cut, [s ++ ": Numerical result out of range".toList])
        else (cut, [])

/-- The number with a sign of an argument. -/
def signedArgument : Option Octets → Int × List Octets :=
  numberArgument (- (numberLimit : Int)) (numberLimit - 1) (- (numberLimit : Int))

/-- Writes a number with a sign. -/
def Directive.signed (d : Directive) (n : Int) : Octets :=
  let sign := if n < 0 then ['-'] else if d.plus then ['+'] else if d.space then [' '] else []
  let digits := if n = 0 ∧ d.precision = some 0 then [] else digitsIn 10 n.natAbs
  d.fitNumber sign digits

/-- Writes a number without a sign. -/
def Directive.unsigned (d : Directive) (n : Nat) : Octets :=
  let digits := match d.letter with
    | 'o' => digitsIn 8 n
    | 'x' => digitsIn 16 n
    | 'X' => (digitsIn 16 n).map Char.toUpper
    | _ => digitsIn 10 n
  let digits := if n = 0 ∧ d.precision = some 0 then [] else digits
  match d.letter with
  | 'o' =>
    d.fitNumber [] (if d.alternate && digits.head? ≠ some '0' then '0' :: digits else digits)
  | 'x' => d.fitNumber (if d.alternate && n ≠ 0 then "0x".toList else []) digits
  | 'X' => d.fitNumber (if d.alternate && n ≠ 0 then "0X".toList else []) digits
  | _ => d.fitNumber [] digits

open Decimal in
/-- The floating-point number of an argument, and a warning if it is none. A quote makes the
character behind it the number. -/
def floatArgument (arg : Option Octets) : FloatValue × List Octets :=
  let ofCode (c : Option Char) : FloatValue :=
    .finite false ((Binary.ofRatio ((c.map Char.toNat).getD 0) 1).getD Binary.zero)
  match arg with
  | none => (ofCode none, [])
  | some [] => (ofCode none, [])
  | some s =>
    match s with
    | '"' :: rest => (ofCode rest.head?, [])
    | '\x27' :: rest => (ofCode rest.head?, [])
    | _ =>
      match Spelled.read? (dropSpace s) with
      | none => (ofCode none, [s ++ ": expected numeric value".toList])
      | some n =>
        if ! n.rest.isEmpty then (n.value, [s ++ ": not completely converted".toList])
        else if n.outOfRange then (n.value, [s ++ ": Numerical result out of range".toList])
        else (n.value, [])

open Decimal in
/-- Writes a floating-point number. -/
def Directive.float (d : Directive) (x : FloatValue) : Octets :=
  let isUpper := d.letter.isUpper
  let minus := match x with
    | .finite minus _ => minus
    | .infinite minus => minus
    | .notANumber => false
  let sign := if minus then ['-'] else if d.plus then ['+'] else if d.space then [' '] else []
  let cased (s : Octets) : Octets := if isUpper then s.map Char.toUpper else s
  match x with
  | .infinite _ => d.fit (sign ++ cased "inf".toList)
  | .notANumber => d.fit (sign ++ cased "nan".toList)
  | .finite _ magnitude =>
    let (num, den) := magnitude.ratio
    let places := d.precision.getD 6
    let digits := match d.letter.toLower with
      | 'f' => fixed num den places d.alternate
      | 'e' => scientific num den places d.alternate
      | 'g' => general num den places d.alternate
      | _ => hexadecimal magnitude d.precision d.alternate
    let isHexadecimal := d.letter.toLower = 'a'
    let sign := if isHexadecimal then sign ++ cased "0x".toList else sign
    let digits := if isHexadecimal then digits.drop 2 else digits
    { d with precision := none }.fitNumber sign (cased digits)

/-- Fills a directive. -/
def Directive.fill (d : Directive) (p : Printing) : Printing :=
  let (arg, p) := p.take
  let limited (s : Octets) := match d.precision with
    | some n => s.take n
    | none => s
  match d.letter with
  | 's' => p.add (d.fit (limited (arg.getD [])))
  | 'b' =>
    let s := arg.getD []
    let (text, ends) := unescape (s.length + 1) s
    let p := p.add (d.fit (limited text))
    { p with ended := ends }
  | 'c' => p.add (d.fit [(arg.getD []).head?.getD (Char.ofNat 0)])
  | c =>
    if c == 'd' || c == 'i' then
      let (n, warnings) := signedArgument arg
      { p.add (d.signed n) with warnings := p.warnings ++ warnings }
    else if c == 'o' || c == 'u' || c == 'x' || c == 'X' then
      let top : Int := 2 * numberLimit
      let (n, warnings) := numberArgument (1 - top) (top - 1) (top - 1) arg
      { p.add (d.unsigned (n % top).toNat) with warnings := p.warnings ++ warnings }
    else
      let (x, warnings) := floatArgument arg
      { p.add (d.float x) with warnings := p.warnings ++ warnings }

/-- Letters that directives end with. -/
def directiveLetters : List Char := "sbcdiouxXaAeEfFgG".toList

/-- Reads the width or precision of a directive; a star takes it from the arguments, of which 32 bits
count. -/
def readSize (s : Octets) (p : Printing) : Int × Octets × Printing :=
  match s with
  | '*' :: rest =>
    let (arg, p) := p.take
    let (n, warnings) := signedArgument arg
    (n.bmod 0x100000000, rest, { p with warnings := p.warnings ++ warnings })
  | _ =>
    let digits := s.takeWhile Char.isDigit
    (Octets.valueOf 10 digits, s.drop digits.length, p)

/-- Reads a directive behind its percent sign and fills it. -/
def fillDirective (s : Octets) (p : Printing) : Octets × Printing :=
  let flags := s.takeWhile ("#-+ 0".toList.contains ·)
  let (width, rest, p) := readSize (s.drop flags.length) p
  let (precision, rest, p) : Option Nat × Octets × Printing :=
    match rest with
    | '.' :: rest =>
      let (n, rest, p) := readSize rest p
      (if n < 0 then none else some n.toNat, rest, p)
    | _ => (none, rest, p)
  match rest with
  | [] => ([], { p with ended := true, mistake := some "missing format character".toList })
  | letter :: after =>
    if directiveLetters.contains letter then
      let d : Directive :=
        ⟨flags.contains '-' || width < 0, flags.contains '+', flags.contains ' ',
          flags.contains '#', flags.contains '0', width.natAbs, precision, letter⟩
      (after, d.fill p)
    else
      let written := '%' :: s.take (s.length - after.length)
      ([], { p with ended := true, mistake := some (written ++ ": invalid directive".toList) })

/-- Goes through a format once. The first argument bounds the number of steps. -/
def printOnce : Nat → Octets → Printing → Printing
  | 0, _, p => p
  | _ + 1, [], p => p
  | n + 1, c :: rest, p =>
    if p.ended then p
    else if c == '\\' then
      let (c, rest) := readEscape rest
      printOnce n rest (p.add [c])
    else if c == '%' then
      if rest.head? == some '%' then printOnce n (rest.drop 1) (p.add ['%'])
      else
        let (rest, p) := fillDirective rest p
        printOnce n rest p
    else printOnce n rest (p.add [c])

/-- Goes through a format as often as it takes to use all arguments, at least once. The first
argument bounds how often. -/
def printAgain (format : Octets) : Nat → Printing → Printing
  | 0, p => p
  | n + 1, p =>
    let count := p.args.length
    let p := printOnce (format.length + 1) format p
    if p.ended || p.args.isEmpty || p.args.length = count then p else printAgain format n p

/-- What `printf` does with a format and arguments. -/
def printFormat (format : Octets) (args : List Octets) : Printing :=
  printAgain format (args.length + 1) ⟨[], args, [], false, none⟩

end Bundler.Shell
