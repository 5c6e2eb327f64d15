import Bundler.Shell.Tool.Call
/-!
# Inputs of tools

A tool that reads files reads its standard input where it gets no names, and for a dash. It goes on
with its other inputs where one of them cannot be read.
-/

namespace Bundler.Shell

/-- The operands, or the standard input if there are none. -/
def Arguments.inputs (a : Arguments) : List Octets :=
  if a.operands.isEmpty then [['-']] else a.operands

/-- Says why an input could not be read. -/
def Call.blames (call : Call) (arg why : Octets) : Work Unit :=
  call.complain (arg ++ ": ".toList ++ why)

/-- Does something with the content of each input. -/
def Call.eachInput (call : Call) (a : Arguments) (work : Octets → Octets → Work Unit) : Work Nat :=
  forAll a.inputs fun arg => do
    match ← call.read arg with
    | .error why =>
      call.blames arg why
      return false
    | .ok text =>
      work arg text
      return true

/-- The records of a text, each with the character that ends it; the last one may lack it. -/
def recordsOf (ending : Char) (text : Octets) : List Octets :=
  let pieces := Octets.pieces (· == ending) text
  pieces.dropLast.map (· ++ [ending]) ++ (pieces.getLast?.filter (! ·.isEmpty)).toList

/-- The records of a text without the characters that end them. -/
def bareRecords (ending : Char) (text : Octets) : List Octets :=
  let pieces := Octets.pieces (· == ending) text
  if pieces.getLast? = some [] then pieces.dropLast else pieces

/-- Records as a text. -/
def unrecords (ending : Char) (records : List Octets) : Octets := records.flatMap (· ++ [ending])

/-- The character that ends records: a zero byte where that is asked for. -/
def Arguments.recordEnd (a : Arguments) : Char := if a.has "z" then Char.ofNat 0 else '\n'

/-! ## Amounts -/

/-- The sizes that letters behind a number stand for, as powers. -/
def unitLetters : List Char := ['K', 'M', 'G', 'T', 'P', 'E', 'Z', 'Y', 'R', 'Q']

/-- The size that a suffix of a number stands for. -/
def unitOf? : Octets → Option Nat
  | [] => some 1
  | ['b'] => some 512
  | c :: rest =>
    let c := if c == 'k' || c == 'm' then c.toUpper else c
    if ! unitLetters.contains c then none
    else
      let power := unitLetters.idxOf c + 1
      if rest.isEmpty || rest = "iB".toList then some (Nat.pow 1024 power)
      else if rest = ['B'] then some (Nat.pow 1000 power)
      else none

/-- A number with a suffix. -/
def amount? (s : Octets) : Option Nat :=
  let digits := s.takeWhile Char.isDigit
  if digits.isEmpty then none
  else (unitOf? (s.drop digits.length)).map (Octets.valueOf 10 digits * ·)

end Bundler.Shell
