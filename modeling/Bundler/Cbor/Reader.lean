import Bundler.Cbor.Head
import Bundler.Decimal.FloatValue
import Bundler.Text.Quoted
/-!
# Reading CBOR

A `Reader` takes an item of some kind from the front of the input; tags in front of it are passed
over. Reading goes from left to right, so the first problem counts. `skipItem` passes over any
well-formed item: there the nesting is limited, and a tagged big number has to be one of 128 bits
unless it is longer than that.
-/

namespace Bundler.Cbor

/-- Takes an item from the front of the input. The first argument bounds the number of steps. -/
abbrev Reader (α : Type) := Nat → Bytes → Except Stop (α × Bytes)

/-- Reads an item and puts it into a value. -/
def Reader.into {α β : Type} (read : Reader β) (put : α → β → α) (value : α) : Reader α :=
  fun fuel input => (read fuel input).map fun (part, rest) => (put value part, rest)

/-! ## Naming items -/

/-- The number of values of 64 bits. -/
def wordCount : Nat := 0x10000000000000000

/-- A number `-1 - n` as a word with a sign: it wraps around below the least one. -/
def negativeText (n : Nat) : String :=
  if n < wordCount / 2 then "-" ++ toString (n + 1) else toString (wordCount - 1 - n)

/-- An item in a message. -/
def Head.shown : Head → String
  | .unsigned n => "integer `" ++ toString n ++ "`"
  | .negative n => "integer `" ++ negativeText n ++ "`"
  | .bytes _ => "bytes"
  | .text _ => "string"
  | .array _ => "sequence"
  | .map _ => "map"
  | .tag _ => "tag"
  | .simple 20 => "boolean `false`"
  | .simple 21 => "boolean `true`"
  | .simple 22 => "null"
  | .simple 23 => "undefined"
  | .simple _ => "simple"
  | .float bits =>
    "floating point `" ++ (Decimal.FloatValue.ofWidth bits.length (natOfBytes bits)).text ++ "`"
  | .endOfOpen => "break"

/-- Refuses an item. -/
def refuse {α : Type} (found : Head) (expected : String) : Except Stop α :=
  .error (.refused (.otherKind found.shown expected))

/-! ## Strings -/

/-- How many bytes the shortest head with a length takes. -/
def headWidth : Option Nat → Nat
  | none => 1
  | some n =>
    if n < 24 then 1 else if n < 0x100 then 2 else if n < 0x10000 then 3
    else if n < 0x100000000 then 5 else 9

/-- Long texts are read in blocks of this size. A key may not be longer. -/
def blockSize : Nat := 4096

/-- Whether a whole block of the input is no text. A block begins with the bytes of a character that
the block before it cuts off. -/
def hasBrokenBlock : Nat → Bytes → Bytes → Bool
  | 0, _, _ => false
  | fuel + 1, kept, input =>
    match takeBytes (blockSize - kept.length) input with
    | none => false
    | some (block, rest) =>
      let open_ := Utf8.brokenTail (kept ++ block)
      3 < open_.length || hasBrokenBlock fuel open_ rest

/-- Stops at an item that begins `width` bytes in front of some bytes. -/
def malformedBefore {α : Type} (width : Nat) (bytes : Bytes) : Except Stop α :=
  .error (.malformed (bytes.length + width))

/-- Reads a piece of text of a given length, whose head begins `width` bytes in front of `start`. -/
def readPiece (width : Nat) (start : Bytes) (length : Nat) (input : Bytes) :
    Except Stop (String × Bytes) :=
  match takeBytes length input with
  | some (bytes, rest) =>
    match Utf8.decode? bytes with
    | none => malformedBefore width start
    | some s => .ok (s, rest)
  | none =>
    if hasBrokenBlock input.length [] input then malformedBefore width start
    else .error .endOfInput

/-- Reads the pieces of a text of open length, up to its break. Pieces may be open themselves; the
second argument counts the open ones, the third holds the texts so far, the latest first. -/
def readPieces : Nat → Nat → List String → Bytes → Except Stop (String × Bytes)
  | 0, _, _, _ => .error .endOfInput
  | fuel + 1, depth, read, input =>
    match readHead input with
    | .error s => .error s
    | .ok (.endOfOpen, rest) =>
      if depth ≤ 1 then .ok (String.join read.reverse, rest)
      else readPieces fuel (depth - 1) read rest
    | .ok (.text none, rest) => readPieces fuel (depth + 1) read rest
    | .ok (.text (some n), rest) =>
      match readPiece 0 input n rest with
      | .error s => .error s
      | .ok (s, rest) => readPieces fuel depth (s :: read) rest
    | .ok _ => malformedBefore 0 input

/-- Reads a text behind its head. -/
def readText (length : Option Nat) : Reader String := fun fuel input =>
  match length with
  | none => readPieces fuel 1 [] input
  | some n => readPiece (headWidth length) input n input

/-- Reads the chunks of a byte string of open length, up to its break, as `readPieces` does. -/
def readChunks : Nat → Nat → List Bytes → Bytes → Except Stop (Bytes × Bytes)
  | 0, _, _, _ => .error .endOfInput
  | fuel + 1, depth, read, input =>
    match readHead input with
    | .error s => .error s
    | .ok (.endOfOpen, rest) =>
      if depth ≤ 1 then .ok (read.reverse.flatten, rest)
      else readChunks fuel (depth - 1) read rest
    | .ok (.bytes none, rest) => readChunks fuel (depth + 1) read rest
    | .ok (.bytes (some n), rest) =>
      match readBytes n rest with
      | .error s => .error s
      | .ok (chunk, rest) => readChunks fuel depth (chunk :: read) rest
    | .ok _ => malformedBefore 0 input

/-- Reads a byte string behind its head. -/
def readByteString (length : Option Nat) : Reader Bytes := fun fuel input =>
  match length with
  | none => readChunks fuel 1 [] input
  | some n => readBytes n input

/-! ## Passing over items -/

/-- What is still to come of an item that was begun. -/
inductive Pending where
  /-- So many items. -/
  | items (n : Nat)
  | openArray
  /-- The rest of an open map, and whether a value comes next. -/
  | openMap (value : Bool)
  deriving DecidableEq, Repr

/-- What is to come of an array. -/
def Pending.ofArray : Option Nat → Pending
  | none => .openArray
  | some n => .items n

/-- What is to come of a map. -/
def Pending.ofMap : Option Nat → Pending
  | none => .openMap false
  | some n => .items (2 * n)

/-- How deep arrays, maps and tags may be nested. -/
def maxNesting : Nat := 256

/-- Opens another item within those that are open. -/
def deeper (pending : Pending) (outer : List Pending) : Except Stop (List Pending) :=
  if maxNesting ≤ outer.length then .error .tooDeep else .ok (pending :: outer)

/-- The longest number that a tag makes of a byte string, in bytes. -/
def maxBigNumber : Nat := 16

/-- A tagged item behind the tag: a big number is read at once, and a negative one must have 128
bits with its sign; any other item is still to come. -/
def skipTagged (tag : Nat) (outer : List Pending) (input : Bytes) :
    Except Stop (List Pending × Bytes) :=
  let other : Except Stop (List Pending × Bytes) :=
    (deeper (.items 1) outer).map fun open_ => (open_, input)
  if tag = 2 ∨ tag = 3 then
    match readHead input with
    | .error s => .error s
    | .ok (.bytes (some n), rest) =>
      if maxBigNumber < n then other
      else
        match readBytes n rest with
        | .error s => .error s
        | .ok (bytes, rest) =>
          if tag = 3 ∧ 0x80000000000000000000000000000000 ≤ natOfBytes bytes then
            .error (.refused .greatInteger)
          else .ok (outer, rest)
    | .ok _ => other
  else other

/-- Passes over an item behind its head, or opens it within those that are open. -/
def skipHead (fuel : Nat) (head : Head) (outer : List Pending) (input : Bytes) :
    Except Stop (List Pending × Bytes) :=
  match head with
  | .unsigned _ => .ok (outer, input)
  | .negative _ => .ok (outer, input)
  | .float _ => .ok (outer, input)
  | .bytes length => (readByteString length fuel input).map fun (_, rest) => (outer, rest)
  | .text length => (readText length fuel input).map fun (_, rest) => (outer, rest)
  | .array length => (deeper (.ofArray length) outer).map fun open_ => (open_, input)
  | .map length => (deeper (.ofMap length) outer).map fun open_ => (open_, input)
  | .tag n => skipTagged n outer input
  | .simple n =>
    if 20 ≤ n ∧ n ≤ 23 then .ok (outer, input) else refuse (.simple n) "known simple value"
  | .endOfOpen => refuse .endOfOpen "non-break"

/-- Passes over all that is to come of the open items, the innermost first. -/
def skipPending : Nat → List Pending → Bytes → Except Stop Bytes
  | 0, _, _ => .error .endOfInput
  | _ + 1, [], input => .ok input
  | fuel + 1, .items 0 :: outer, input => skipPending fuel outer input
  | fuel + 1, pending :: outer, input =>
    match readHead input with
    | .error s => .error s
    | .ok (head, rest) =>
      let go (open_ : List Pending) : Except Stop Bytes :=
        match skipHead fuel head open_ rest with
        | .error s => .error s
        | .ok (open_, rest) => skipPending fuel open_ rest
      match pending with
      | .items n => go (.items (n - 1) :: outer)
      | .openMap true => go (.openMap false :: outer)
      | .openMap false =>
        if head = .endOfOpen then skipPending fuel outer rest else go (.openMap true :: outer)
      | .openArray =>
        if head = .endOfOpen then skipPending fuel outer rest else go (.openArray :: outer)

/-- Passes over an item inside a record. -/
def skipItem : Reader Unit := fun fuel input =>
  match skipPending fuel [.items 1] input with
  | .error s => .error s
  | .ok rest => .ok ((), rest)

/-! ## Wanted items -/

/-- Reads the head of the next item that is no tag. -/
def readUntagged : Reader Head := fun fuel input =>
  match fuel with
  | 0 => .error .endOfInput
  | fuel + 1 =>
    match readHead input with
    | .error s => .error s
    | .ok (.tag _, rest) => readUntagged fuel rest
    | .ok answer => .ok answer

/-- A text. -/
def string : Reader String := fun fuel input =>
  match readUntagged fuel input with
  | .error s => .error s
  | .ok (.text length, rest) => readText length fuel rest
  | .ok (head, _) => refuse head "string"

/-- Reads as many items as are left, or up to a break where their number is open. The third argument
holds the items so far, the latest first. -/
def elements {α : Type} (read : Reader α) :
    Nat → Option Nat → List α → Bytes → Except Stop (List α × Bytes)
  | 0, _, _, _ => .error .endOfInput
  | _ + 1, some 0, items, input => .ok (items.reverse, input)
  | fuel + 1, count, items, input =>
    let go : Except Stop (List α × Bytes) :=
      match read fuel input with
      | .error s => .error s
      | .ok (item, rest) => elements read fuel (count.map (· - 1)) (item :: items) rest
    match count, readHead input with
    | none, .error s => .error s
    | none, .ok (.endOfOpen, rest) => .ok (items.reverse, rest)
    | _, _ => go

/-- An array. A byte string counts as an array of small numbers, which `expected` items are not. -/
def list {α : Type} (expected : String) (read : Reader α) : Reader (List α) := fun fuel input =>
  match readUntagged fuel input with
  | .error s => .error s
  | .ok (.array length, rest) => elements read fuel length [] rest
  | .ok (.bytes length, rest) =>
    match readByteString length fuel rest with
    | .error s => .error s
    | .ok ([], rest) => .ok ([], rest)
    | .ok (b :: _, _) => refuse (.unsigned b.toNat) expected
  | .ok (head, _) => refuse head "array"

/-- A key: a text or byte string in one piece. The second argument says whether the head was looked
at before; then only its shortest form counts where the place of a problem is told. -/
def readKey : Nat → Bool → Bytes → Except Stop (Bytes × Bytes)
  | 0, _, _ => .error .endOfInput
  | fuel + 1, seen, input =>
    match readHead input with
    | .error s => .error s
    | .ok (.tag _, rest) => readKey fuel false rest
    | .ok (head, rest) =>
      match head with
      | .text (some n) =>
        if blockSize < n then refuse head "str or bytes"
        else
          match readBytes n rest with
          | .error s => .error s
          | .ok (bytes, after) =>
            if (Utf8.decode? bytes).isSome then .ok (bytes, after)
            else if seen then malformedBefore (headWidth (some n)) rest
            else malformedBefore 0 input
      | .bytes (some n) => if blockSize < n then refuse head "str or bytes" else readBytes n rest
      | head => refuse head "str or bytes"

/-- A kind of record: what it holds before any field is read, and how each field is put into it. All
fields must be there; others are passed over. -/
structure Shape (α : Type) where
  start : α
  fields : List (String × (α → Reader α))

namespace Shape

variable {α : Type}

/-- The field that a key names. -/
def find? (s : Shape α) (key : Bytes) : Option (String × (α → Reader α)) :=
  s.fields.find? fun (name, _) => Utf8.encode name = key

/-- Reads the members of a record, as many as are left or up to a break. The third argument holds the
fields so far. -/
def members (s : Shape α) :
    Nat → Option Nat → List String → α → Bytes → Except Stop (α × Bytes)
  | 0, _, _, _, _ => .error .endOfInput
  | fuel + 1, count, seen, value, input =>
    let finish (rest : Bytes) : Except Stop (α × Bytes) :=
      match s.fields.find? fun (name, _) => ! seen.contains name with
      | some (name, _) => .error (.refused (.missingField name))
      | none => .ok (value, rest)
    let go : Except Stop (α × Bytes) :=
      match readKey fuel count.isNone input with
      | .error stop => .error stop
      | .ok (key, rest) =>
        match s.find? key with
        | none =>
          match skipItem fuel rest with
          | .error stop => .error stop
          | .ok ((), rest) => s.members fuel (count.map (· - 1)) seen value rest
        | some (name, read) =>
          if seen.contains name then .error (.refused (.repeatedField name))
          else
            match read value fuel rest with
            | .error stop => .error stop
            | .ok (value, rest) => s.members fuel (count.map (· - 1)) (name :: seen) value rest
    match count with
    | some 0 => finish input
    | some _ => go
    | none =>
      match readHead input with
      | .error stop => .error stop
      | .ok (.endOfOpen, rest) => finish rest
      | .ok _ => go

/-- A record. -/
def read (s : Shape α) : Reader α := fun fuel input =>
  match readUntagged fuel input with
  | .error stop => .error stop
  | .ok (.map length, rest) => s.members fuel length [] s.start rest
  | .ok (head, _) => refuse head "map"

end Shape

/-! ## Errors -/

/-- Why bytes hold no item of some kind. -/
inductive Error where
  | endOfInput
  /-- The bytes cannot be read, for they belong to a directory. -/
  | directory
  /-- There is no item at this offset. -/
  | malformed (offset : Nat)
  | refused (problem : Problem)
  | tooDeep
  deriving DecidableEq, Repr

/-- A name between backquotes. -/
def ticked (name : String) : String := "`" ++ name ++ "`"

/-- The text of a problem. -/
def Problem.message : Problem → String
  | .otherKind found expected => "invalid type: " ++ found ++ ", expected " ++ expected
  | .greatInteger => "integer too large"
  | .missingField name => "missing field " ++ ticked name
  | .repeatedField name => "duplicate field " ++ ticked name

/-- The text of an error. -/
def Error.message : Error → String
  | .endOfInput =>
    "Io(Error \x7b kind: UnexpectedEof, message: " ++ Text.quoted "failed to fill whole buffer" ++
      " \x7d)"
  | .directory =>
    "Io(Os \x7b code: 21, kind: IsADirectory, message: " ++ Text.quoted "Is a directory" ++ " \x7d)"
  | .malformed offset => "Syntax(" ++ toString offset ++ ")"
  | .refused problem => "Semantic(None, " ++ Text.quoted problem.message ++ ")"
  | .tooDeep => "RecursionLimitExceeded"

/-- The error of a stop in the whole input. -/
def Stop.toError (input : Bytes) : Stop → Error
  | .endOfInput => .endOfInput
  | .malformed left => .malformed (input.length - left)
  | .refused problem => .refused problem
  | .tooDeep => .tooDeep

/-- The item at the front of the input; what follows it does not matter. -/
def Reader.decode {α : Type} (read : Reader α) (input : Bytes) : Except Error α :=
  match read (2 * input.length + 3) input with
  | .error stop => .error (stop.toError input)
  | .ok (value, _) => .ok value

end Bundler.Cbor
