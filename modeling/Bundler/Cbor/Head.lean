import Bundler.Text.Utf8
/-!
# Heads of CBOR items

Every item of the binary format of RFC 8949 begins with a head: its kind and a number, which for a
string, an array or a map is its length. Heads are written in their shortest form and with a length;
when they are read, they may be longer than needed, and a length may be left open until a break.
-/

namespace Bundler.Cbor

/-! ## Writing -/

/-- The last `width` bytes of a number, the highest first. -/
def bigEndian : Nat → Nat → Bytes
  | 0, _ => []
  | width + 1, n => bigEndian width (n / 256) ++ [UInt8.ofNat (n % 256)]

/-- The shortest head of an item of a major type. -/
def head (major n : Nat) : Bytes :=
  if n < 24 then [UInt8.ofNat (major * 32 + n)]
  else if n < 0x100 then UInt8.ofNat (major * 32 + 24) :: bigEndian 1 n
  else if n < 0x10000 then UInt8.ofNat (major * 32 + 25) :: bigEndian 2 n
  else if n < 0x100000000 then UInt8.ofNat (major * 32 + 26) :: bigEndian 4 n
  else UInt8.ofNat (major * 32 + 27) :: bigEndian 8 n

/-- A text. -/
def text (s : String) : Bytes :=
  let bytes := Utf8.encode s
  head 3 bytes.length ++ bytes

/-- An array of written items. -/
def array (items : List Bytes) : Bytes := head 4 items.length ++ items.flatten

/-- A map of written keys and values. -/
def map (members : List (Bytes × Bytes)) : Bytes :=
  head 5 members.length ++ members.flatMap fun (key, value) => key ++ value

/-! ## Reading -/

/-- What a value is refused for. -/
inductive Problem where
  /-- An item of another kind than the expected one. -/
  | otherKind (found expected : String)
  | greatInteger
  | missingField (name : String)
  | repeatedField (name : String)
  deriving DecidableEq, Repr

/-- Where reading stopped. -/
inductive Stop where
  | endOfInput
  /-- Bytes that are no item, with the number of bytes left from the item on. -/
  | malformed (left : Nat)
  | refused (problem : Problem)
  | tooDeep
  deriving DecidableEq, Repr

/-- A head. A length may be open. -/
inductive Head where
  | unsigned (n : Nat)
  /-- The number `-1 - n`. -/
  | negative (n : Nat)
  | bytes (length : Option Nat)
  | text (length : Option Nat)
  | array (length : Option Nat)
  | map (length : Option Nat)
  | tag (n : Nat)
  | simple (n : Nat)
  /-- A floating-point number by its bytes. -/
  | float (bits : Bytes)
  /-- The end of an item of open length. -/
  | endOfOpen
  deriving DecidableEq, Repr

/-- The number of some bytes, the highest first. -/
def natOfBytes (bytes : Bytes) : Nat := bytes.foldl (fun n b => n * 256 + b.toNat) 0

/-- The first `n` bytes and the rest, if there are so many. -/
def takeBytes (n : Nat) (input : Bytes) : Option (Bytes × Bytes) :=
  let taken := input.take n
  if taken.length = n then some (taken, input.drop n) else none

/-- The first `n` bytes and the rest. -/
def readBytes (n : Nat) (input : Bytes) : Except Stop (Bytes × Bytes) :=
  match takeBytes n input with
  | none => .error .endOfInput
  | some answer => .ok answer

/-- What a head says behind its major type: a number, with the bytes that it was written in, or
that the length is open. -/
inductive Argument where
  | short (n : Nat)
  | long (bytes : Bytes)
  | indefinite
  deriving DecidableEq, Repr

/-- The number that a head gives. -/
def Argument.value? : Argument → Option Nat
  | .short n => some n
  | .long bytes => some (natOfBytes bytes)
  | .indefinite => none

/-- How many bytes follow a first byte, if it is one that can begin a head: `info` holds its five
low bits. -/
def argumentWidth? (info : Nat) : Option Nat :=
  if info < 24 then some 0
  else if info = 24 then some 1
  else if info = 25 then some 2
  else if info = 26 then some 4
  else if info = 27 then some 8
  else if info = 31 then some 0
  else none

/-- The head of a major type with an argument. A number and a tag have no open form; a one-byte
argument of the last type is a simple value, a longer one a float. -/
def Head.of? (major : Nat) (argument : Argument) : Option Head :=
  match major with
  | 0 => argument.value?.map .unsigned
  | 1 => argument.value?.map .negative
  | 2 => some (.bytes argument.value?)
  | 3 => some (.text argument.value?)
  | 4 => some (.array argument.value?)
  | 5 => some (.map argument.value?)
  | 6 => argument.value?.map .tag
  | _ =>
    match argument with
    | .short n => some (.simple n)
    | .long [b] => some (.simple b.toNat)
    | .long bits => some (.float bits)
    | .indefinite => some .endOfOpen

/-- Reads a head. -/
def readHead (input : Bytes) : Except Stop (Head × Bytes) :=
  match input with
  | [] => .error .endOfInput
  | b :: rest =>
    let info := b.toNat % 32
    match argumentWidth? info with
    | none => .error (.malformed input.length)
    | some width =>
      match readBytes width rest with
      | .error s => .error s
      | .ok (bytes, rest) =>
        let argument :=
          if info < 24 then .short info else if info = 31 then .indefinite else .long bytes
        match Head.of? (b.toNat / 32) argument with
        | none => .error (.malformed input.length)
        | some head => .ok (head, rest)

end Bundler.Cbor
