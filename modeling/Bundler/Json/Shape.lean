import Bundler.Json.Number
/-!
# Readers of values of one kind

Texts, whole numbers, lists, maps and records. A value of another kind is named in the problem that
it makes. A record is an object with some fields in any order, or an array of its fields in their
order.
-/

namespace Bundler.Json

/-- The stop at a value of another kind than the expected one. The value is read first, as far as
that takes to name it. -/
def mismatch (expected : String) (input : Bytes) : Stop :=
  let found (name : String) : Except Stop Bytes → Stop
    | .error s => s
    | .ok rest => ⟨.otherKind name expected, rest.length⟩
  let number : Except Stop (Number × Bytes) → Stop
    | .error s => s
    | .ok (n, rest) => ⟨.otherKind n.shown expected, rest.length⟩
  match input with
  | [] => ⟨.endInValue, 0⟩
  | 0x6E :: rest => found "null" (readWord nullTail rest)
  | 0x74 :: rest => found "boolean `true`" (readWord trueTail rest)
  | 0x66 :: rest => found "boolean `false`" (readWord falseTail rest)
  | 0x2D :: rest => number (readNumber true rest)
  | 0x22 :: rest =>
    match readString rest with
    | .error s => s
    | .ok (s, rest) => ⟨.otherKind ("string " ++ Text.quoted s) expected, rest.length⟩
  | 0x5B :: rest => ⟨.otherKind "sequence" expected, rest.length + 1⟩
  | 0x7B :: rest => ⟨.otherKind "map" expected, rest.length + 1⟩
  | b :: rest =>
    if isDigit b then number (readNumber false (b :: rest)) else ⟨.valueWanted, rest.length⟩

/-- A string. -/
def text (expected : String) : Reader String := fun _ input =>
  match skipBlank input with
  | 0x22 :: rest => readString rest
  | rest => .error (mismatch expected rest)

/-- A whole number below `2 ^ 64`. -/
def word (expected : String) : Reader Nat := fun _ input =>
  let number (minus : Bool) (rest : Bytes) : Except Stop (Nat × Bytes) :=
    match readNumber minus rest with
    | .error s => .error s
    | .ok (.natural n, rest) => .ok (n, rest)
    | .ok (.negative n, rest) => stopAt (.otherValue (Number.negative n).shown expected) rest
    | .ok (n, rest) => stopAt (.otherKind n.shown expected) rest
  match skipBlank input with
  | 0x2D :: rest => number true rest
  | rest => if beginsWithDigit rest then number false rest else .error (mismatch expected rest)

/-- A value or null. -/
def optional {α : Type} (read : Reader α) : Reader (Option α) := fun fuel input =>
  match skipBlank input with
  | 0x6E :: rest => (readWord nullTail rest).map fun rest => (none, rest)
  | rest => (read fuel rest).map fun (value, rest) => (some value, rest)

/-- One of some names: a string, or an object with the name as its only key and null as its
value. -/
def choice (kind : String) (names : List String) : Reader String := fun _ input =>
  let known (answer : Except Stop (String × Bytes)) : Except Stop (String × Bytes) :=
    match answer with
    | .error s => .error s
    | .ok (name, rest) =>
      if names.contains name then .ok (name, rest) else stopAt (.unknownName name names) rest
  match skipBlank input with
  | 0x22 :: rest => known (readString rest)
  | 0x7B :: rest =>
    match skipBlank rest with
    | 0x22 :: rest =>
      match known (readString rest) with
      | .error s => .error s
      | .ok (name, rest) =>
        match skipBlank rest with
        | 0x3A :: rest =>
          match skipBlank rest with
          | 0x6E :: rest =>
            match readWord nullTail rest with
            | .error s => .error s
            | .ok rest =>
              match skipBlank rest with
              | [] => stopPast .endInObject []
              | 0x7D :: rest => .ok (name, rest)
              | rest => stopPast .valueWanted rest
          | rest => .error (mismatch "unit" rest)
        | [] => stopPast .endInObject []
        | rest => stopPast .colonWanted rest
    | rest => .error (mismatch ("variant of enum " ++ kind) rest)
  | [] => stopPast .endInValue []
  | rest => stopPast .valueWanted rest

/-! ## Arrays -/

/-- Whether an array has another element: the input in front of it, or nothing in front of the
closing bracket. -/
def nextElement (first : Bool) (input : Bytes) : Except Stop (Option Bytes) :=
  match skipBlank input with
  | [] => stopPast .endInList []
  | 0x5D :: _ => .ok none
  | b :: rest =>
    if first then .ok (some (b :: rest))
    else if b = 0x2C then
      match skipBlank rest with
      | [] => stopPast .endInValue []
      | 0x5D :: rest => stopAt .trailingComma rest
      | rest => .ok (some rest)
    else stopPast .listGoesOn (b :: rest)

/-- Reads the closing bracket of an array. -/
def endArray (input : Bytes) : Except Stop Bytes :=
  match skipBlank input with
  | [] => stopPast .endInList []
  | 0x5D :: rest => .ok rest
  | 0x2C :: rest =>
    match skipBlank rest with
    | 0x5D :: rest => stopAt .trailingComma rest
    | rest => stopPast .trailingCharacters rest
  | rest => stopPast .trailingCharacters rest

/-- How many bytes are left behind a problem with an array as a whole: its end is read if it comes
next. -/
def leftOfArray (input : Bytes) : Nat :=
  match skipBlank input with
  | 0x5D :: rest => rest.length
  | 0x2C :: rest => (skipBlank rest).length
  | rest => rest.length

/-- Reads the elements of an array and its closing bracket. The second argument holds the elements
so far, the latest first. -/
def elements {α : Type} (read : Reader α) : Nat → List α → Bytes → Except Stop (List α × Bytes)
  | 0, _, input => stopAt .endInList input
  | fuel + 1, items, input =>
    match nextElement items.isEmpty input with
    | .error s => .error s
    | .ok none => (endArray input).map fun rest => (items.reverse, rest)
    | .ok (some rest) =>
      match read fuel rest with
      | .error s => .error s
      | .ok (item, rest) => elements read fuel (item :: items) rest

/-- An array. -/
def list {α : Type} (read : Reader α) : Reader (List α) := fun fuel input =>
  match skipBlank input with
  | 0x5B :: rest => elements read fuel [] rest
  | rest => .error (mismatch "a sequence" rest)

/-! ## Objects -/

/-- Whether an object has another member: the input behind the opening quote of its key, or nothing
in front of the closing brace. -/
def nextKey (first : Bool) (input : Bytes) : Except Stop (Option Bytes) :=
  let key : Bytes → Except Stop (Option Bytes)
    | 0x22 :: rest => .ok (some rest)
    | rest => stopPast .keyWanted rest
  match skipBlank input with
  | [] => stopPast .endInObject []
  | 0x7D :: _ => .ok none
  | b :: rest =>
    if first then key (b :: rest)
    else if b = 0x2C then
      match skipBlank rest with
      | [] => stopPast .endInValue []
      | 0x7D :: rest => stopAt .trailingComma rest
      | rest => key rest
    else stopPast .objectGoesOn (b :: rest)

/-- Reads the colon behind a key. -/
def readColon (input : Bytes) : Except Stop Bytes :=
  match skipBlank input with
  | [] => stopPast .endInObject []
  | 0x3A :: rest => .ok rest
  | rest => stopPast .colonWanted rest

/-- Reads the closing brace of an object. -/
def endObject (input : Bytes) : Except Stop Bytes :=
  match skipBlank input with
  | [] => stopPast .endInObject []
  | 0x7D :: rest => .ok rest
  | 0x2C :: rest => stopAt .trailingComma rest
  | rest => stopPast .trailingCharacters rest

/-- How many bytes are left behind a problem with an object as a whole: its end is read if it comes
next. -/
def leftOfObject (input : Bytes) : Nat :=
  match skipBlank input with
  | 0x7D :: rest => rest.length
  | rest => rest.length

/-- Reads a key behind its opening quote, its colon and its value. -/
def member {α : Type} (read : String → Reader α) (fuel : Nat) (input : Bytes) :
    Except Stop (α × Bytes) :=
  match readString input with
  | .error s => .error s
  | .ok (key, rest) =>
    match readColon rest with
    | .error s => .error s
    | .ok rest => read key fuel rest

/-- Reads the members of an object and its closing brace. The second argument holds the members so
far, the latest first. -/
def members {α : Type} (read : Reader α) :
    Nat → List (String × α) → Bytes → Except Stop (List (String × α) × Bytes)
  | 0, _, input => stopAt .endInObject input
  | fuel + 1, found, input =>
    match nextKey found.isEmpty input with
    | .error s => .error s
    | .ok none => (endObject input).map fun rest => (found.reverse, rest)
    | .ok (some rest) =>
      let pair (key : String) : Reader (String × α) := fun fuel rest =>
        (read fuel rest).map fun (value, rest) => ((key, value), rest)
      match member pair fuel rest with
      | .error s => .error s
      | .ok (entry, rest) => members read fuel (entry :: found) rest

/-- An object with keys of any name, in order and with its repetitions. -/
def map {α : Type} (read : Reader α) : Reader (List (String × α)) := fun fuel input =>
  match skipBlank input with
  | 0x7B :: rest => members read fuel [] rest
  | rest => .error (mismatch "a map" rest)

/-! ## Records -/

/-- A kind of record: its name, what it holds before any field is read, and how each field is put
into it. -/
structure Shape (α : Type) where
  name : String
  start : α
  fields : List (String × (α → Reader α))
  /-- Whether all fields must be there. -/
  complete : Bool
  /-- Whether there may be no other fields. -/
  closed : Bool

namespace Shape

variable {α : Type}

/-- The names of the fields. -/
def names (s : Shape α) : List String := s.fields.map Prod.fst

/-- What is expected where a record should be. -/
def expected (s : Shape α) : String := "struct " ++ s.name

/-- Reads the fields of a record that is written as an array, in order. The third argument counts
the fields so far. -/
def inOrder (s : Shape α) (fuel : Nat) :
    List (String × (α → Reader α)) → Nat → α → Bytes → Except Stop (α × Bytes)
  | [], _, value, input => (endArray input).map fun rest => (value, rest)
  | (_, read) :: fields, n, value, input =>
    match nextElement (n = 0) input with
    | .error s => .error s
    | .ok none =>
      if s.complete then
        let count := s.fields.length
        let wanted := s.expected ++ " with " ++ toString count ++
          (if count = 1 then " element" else " elements")
        .error ⟨.otherLength n wanted, leftOfArray input⟩
      else (endArray input).map fun rest => (value, rest)
    | .ok (some rest) =>
      match read value fuel rest with
      | .error s => .error s
      | .ok (value, rest) => s.inOrder fuel fields (n + 1) value rest

/-- Reads the value of a field into a record. The values of other fields are passed over. -/
def field (s : Shape α) (value : α) (key : String) : Reader α :=
  match s.fields.lookup key with
  | none => fun fuel input => (skipValue fuel input).map fun ((), rest) => (value, rest)
  | some read => read value

/-- The problem with a key, if there is one. -/
def keyProblem? (s : Shape α) (seen : List String) (key : String) : Option Problem :=
  if s.names.contains key then
    if seen.contains key then some (.repeatedField key) else none
  else if s.closed then some (.unknownField key s.names)
  else none

/-- Reads the members of a record and its closing brace. The second argument holds the keys so
far. -/
def byName (s : Shape α) : Nat → List String → α → Bytes → Except Stop (α × Bytes)
  | 0, _, _, input => stopAt .endInObject input
  | fuel + 1, seen, value, input =>
    match nextKey seen.isEmpty input with
    | .error s => .error s
    | .ok none =>
      match s.names.find? fun name => s.complete && ! seen.contains name with
      | some name => .error ⟨.missingField name, leftOfObject input⟩
      | none => (endObject input).map fun rest => (value, rest)
    | .ok (some rest) =>
      match readString rest with
      | .error s => .error s
      | .ok (key, rest) =>
        match s.keyProblem? seen key with
        | some problem => .error ⟨problem, leftOfObject rest⟩
        | none =>
          match readColon rest with
          | .error s => .error s
          | .ok rest =>
            match s.field value key fuel rest with
            | .error s => .error s
            | .ok (value, rest) => s.byName fuel (key :: seen) value rest

/-- A record. -/
def read (s : Shape α) : Reader α := fun fuel input =>
  match skipBlank input with
  | 0x5B :: rest => s.inOrder fuel s.fields 0 s.start rest
  | 0x7B :: rest => s.byName fuel [] s.start rest
  | rest => .error (mismatch s.expected rest)

end Shape
end Bundler.Json
