import Bundler.Shell.Octets
/-!
# Fields

How an expanded text is cut into fields. Only what expansions gave is cut: these are the regions of
the text. A separator ends a field, and blanks among the separators do so without making empty ones.
`cutFields` gives the fields of a text, and with a limit the last of them takes all that is left.
-/

namespace Bundler.Shell

/-- What happens to a character behind the expansion. -/
inductive Mark where
  /-- It stands for itself. -/
  | quoted
  /-- It can be a sign of a pattern. -/
  | plain
  /-- It can be a sign of a pattern or end a field. -/
  | loose
  deriving DecidableEq, Repr

/-- A piece of an expanded text. -/
inductive Atom where
  | char (c : Char) (mark : Mark)
  /-- A quote: there is a field, even if nothing is in it. -/
  | quote
  /-- The end of an argument of the shell, which is a separator. -/
  | cut
  /-- A region begins. It may be a list of arguments between quotes, which are fields even if they
  are empty. -/
  | region (ofList : Bool)
  deriving DecidableEq, Repr

/-- A character of a field, and whether it can be a sign of a pattern. -/
abbrev FieldChar := Char × Bool

/-- The text of a field. -/
def fieldText (field : List FieldChar) : Octets := field.map (·.1)

/-- A text that is being cut. -/
structure Cutting where
  /-- The fields that are complete, the last one first. -/
  done : List (List FieldChar)
  /-- The field that is being built, with its last character first, if it has begun. -/
  field : Option (List FieldChar)
  /-- A blank of the region has just ended a field. -/
  behindBlank : Bool
  /-- The region is a list. -/
  inList : Bool
  /-- The region before is a list. -/
  behindList : Bool
  /-- How many fields may still be completed, if there is a limit. -/
  left : Option Nat
  /-- The last field without the separators that end it, once there are some. -/
  trimmed : Option (Option (List FieldChar))

namespace Cutting

/-- Nothing is cut yet. -/
def start (limit : Option Nat) : Cutting := ⟨[], none, false, false, false, limit, none⟩

/-- Adds a character to the field. -/
def add (k : Cutting) (c : FieldChar) : Cutting :=
  { k with field := some (c :: k.field.getD []) }

/-- Completes the field. -/
def complete (k : Cutting) : Cutting :=
  { k with
    done := (k.field.getD []).reverse :: k.done, field := none, left := k.left.map (· - 1) }

/-- Meets a character of a region when the last field has begun that may: it takes all, and
separators are taken away where the text ends with no more than one that is no blank. -/
def takeLast (k : Cutting) (c : FieldChar) (separates blank : Bool) : Cutting :=
  if blank then { k.add c with trimmed := k.trimmed <|> some k.field }
  else
    { k.add c with
      trimmed := if separates && k.behindBlank then k.trimmed else none, behindBlank := false }

/-- Meets a character of a region; `blank` says that it is a separator which is a blank. Directly
behind a list, blanks are like other separators. -/
def take (k : Cutting) (c : FieldChar) (separates blank : Bool) : Cutting :=
  if k.left = some 0 then k.takeLast c separates blank
  else if k.behindBlank && separates then { k with behindBlank := blank }
  else if ! separates then { k.add c with behindBlank := false }
  else
    let skips := blank && ! (k.behindList || k.inList)
    if skips && k.field.isNone then { k with behindBlank := false }
    else if k.left = some 1 then
      { k.add c with left := some 0, trimmed := some k.field, behindBlank := skips }
    else { k.complete with behindBlank := skips }

/-- Meets a piece of the text. -/
def step (separators : Octets) (k : Cutting) : Atom → Cutting
  | .quote => { k with field := some (k.field.getD []) }
  | .region ofList => { k with behindList := k.inList, inList := ofList, behindBlank := false }
  | .cut => k.take (' ', false) true true
  | .char c .loose =>
    let separates := separators.contains c
    k.take (c, true) separates (separates && (c == ' ' || c == '\t' || c == '\n'))
  | .char c mark => k.add (c, mark = .plain)

/-- The fields, at the end of the text. -/
def finish (k : Cutting) : List (List FieldChar) :=
  if k.inList then k.complete.done.reverse
  else
    match k.trimmed.getD k.field with
    | some field => (field.reverse :: k.done).reverse
    | none => k.done.reverse

end Cutting

/-- Cuts an expanded text into fields, as many as the limit at most. -/
def cutFields (limit : Option Nat) (separators : Octets) (atoms : List Atom) :
    List (List FieldChar) :=
  (atoms.foldl (Cutting.step separators) (.start limit)).finish

end Bundler.Shell
