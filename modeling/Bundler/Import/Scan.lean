import Bundler.Text.Utf8
/-!
# Finding imports

An import is the text `require(` followed at once by a quoted literal; the literal ends at the next
byte that equals its opening quote. Nothing else of the source is understood: comments, escapes and
template literals make no difference. `Scanner` reads the source once, byte by byte, and keeps only
how much of the keyword the last bytes spell.
-/

namespace Bundler

/-- A half-open range of byte positions. -/
structure Span where
  start : Nat
  stop : Nat
  deriving DecidableEq, Repr

/-- The bytes in a range of positions. -/
def slice (source : Bytes) (start stop : Nat) : Bytes := (source.drop start).take (stop - start)

/-- The bytes of a span. -/
def Span.of (span : Span) (source : Bytes) : Bytes := slice source span.start span.stop

/-- An import literal: its text and where it stands, the quotes left out. -/
structure Import where
  specifier : String
  span : Span
  deriving DecidableEq, Repr

namespace Import

/-- The bytes of `require(`. -/
def keyword : Bytes := [0x72, 0x65, 0x71, 0x75, 0x69, 0x72, 0x65, 0x28]

/-- A single or a double quote. -/
def isQuote (byte : UInt8) : Bool := byte == 0x27 || byte == 0x22

/-- Where the scanner stands. -/
inductive Scanner where
  /-- No beginning of the keyword was just read. -/
  | outside
  /-- The last `n` bytes begin the keyword. -/
  | matching (n : Nat)
  /-- The keyword was just read. -/
  | awaitingQuote
  /-- In a literal whose text begins at `start`. -/
  | inLiteral (quote : UInt8) (start : Nat)
  deriving DecidableEq, Repr

/-- The longest beginning of the keyword, of at most the given length, that ends the text made of
the first `matched` bytes of the keyword and `byte`. -/
def longestBorder (matched : Nat) (byte : UInt8) : Nat → Nat
  | 0 => 0
  | k + 1 =>
    if keyword[k]? = some byte ∧ keyword.take k = slice keyword (matched - k) matched then k + 1
    else longestBorder matched byte k

/-- The state after `byte` broke a match of `matched` bytes. -/
def restart (matched : Nat) (byte : UInt8) : Scanner :=
  match longestBorder matched byte matched with
  | 0 => .outside
  | k => .matching k

/-- Reads the byte at a position; a closing quote yields the span of its literal. -/
def Scanner.step (state : Scanner) (pos : Nat) (byte : UInt8) : Scanner × Option Span :=
  match state with
  | .outside => if keyword[0]? = some byte then (.matching 1, none) else (.outside, none)
  | .matching n =>
    if keyword[n]? = some byte then
      (if n + 1 = keyword.length then .awaitingQuote else .matching (n + 1), none)
    else (restart n byte, none)
  | .awaitingQuote =>
    if isQuote byte then (.inLiteral byte (pos + 1), none)
    else (restart keyword.length byte, none)
  | .inLiteral quote start =>
    if byte = quote then (.outside, some ⟨start, pos⟩) else (.inLiteral quote start, none)

/-- A scan under way: the state, the next position, and the spans found, the latest first. -/
structure Scan where
  state : Scanner
  pos : Nat
  found : List Span
  deriving DecidableEq, Repr

/-- Nothing is read yet. -/
def Scan.start : Scan := ⟨.outside, 0, []⟩

/-- Reads one byte. -/
def Scan.read (scan : Scan) (byte : UInt8) : Scan :=
  let (state, closed) := scan.state.step scan.pos byte
  ⟨state, scan.pos + 1, closed.toList ++ scan.found⟩

/-- The state of the scan after some bytes. -/
def Scan.after (source : Bytes) : Scan := source.foldl Scan.read Scan.start

/-- Where the closed literals stand, in order. A literal that the source leaves open is none. -/
def spans (source : Bytes) : List Span := (Scan.after source).found.reverse

/-- The imports at increasing spans; `rest` holds the source from `pos` on. -/
def cut (rest : Bytes) (pos : Nat) : List Span → List Import
  | [] => []
  | span :: more =>
    let inside := rest.drop (span.start - pos)
    let length := span.stop - span.start
    ⟨Utf8.decodeLossy (inside.take length), span⟩ :: cut (inside.drop length) span.stop more

/-- The imports of a source, in order. -/
def scan (source : Bytes) : List Import := cut source 0 (spans source)

end Import
end Bundler
