import Bundler.Cause
import Bundler.Cbor.Reader
/-!
# Records of compiled files

Beside every compiled file lies a record: the file's path, the digest of the source that it was
compiled from, and the modules that it imports. Records are CBOR maps.
-/

namespace Bundler

/-- What is known of a compiled file. -/
structure Record where
  filename : Path
  /-- The digest of the source, in hexadecimal. -/
  hash : String
  imports : List Path
  deriving DecidableEq, Repr

/-- Why a record cannot be used. -/
inductive RecordError where
  | inaccessible (path : Path) (error : IoError)
  | malformed (path : Path) (error : Cbor.Error)
  | missing (path : Path)
  deriving DecidableEq, Repr

/-- The text of the error, its cause worded by `say`. -/
def RecordError.message (say : Cause → String) : RecordError → String
  | .inaccessible path e => "Couldn't access object record " ++ path.text ++ ":\n" ++ say (.io e)
  | .malformed path e => "Malformed object record " ++ path.text ++ ":\n" ++ say (.cbor e)
  | .missing path => "Missing object record for " ++ path.text ++ ", was it compiled?"

namespace Record

/-- What the path of a record adds to the path of its file. -/
def suffix : String := ".meta.cbor"

/-- Where the record of a file lies. -/
def pathFor (file : Path) : Path := ⟨file.text ++ suffix⟩

/-- The bytes of a record. -/
def encode (r : Record) : Bytes :=
  Cbor.map
    [(Cbor.text "filename", Cbor.text r.filename.text), (Cbor.text "hash", Cbor.text r.hash),
      (Cbor.text "imports", Cbor.array (r.imports.map fun p => Cbor.text p.text))]

/-- A record as an item. -/
def shape : Cbor.Shape Record where
  start := ⟨⟨""⟩, "", []⟩
  fields :=
    [("filename", Cbor.string.into fun r filename => { r with filename := ⟨filename⟩ }),
      ("hash", Cbor.string.into fun r hash => { r with hash }),
      ("imports", (Cbor.list "a UTF-8 path string" Cbor.string).into fun r imports =>
        { r with imports := imports.map Path.mk })]

/-- The record at the start of some bytes; what follows it does not matter. -/
def decode (bytes : Bytes) : Except Cbor.Error Record := shape.read.decode bytes

/-- Reads a record; there may be none. -/
def load (t : FileTree) (path : Path) : Except RecordError (Option Record) :=
  match t.read path with
  | .error .notFound => .ok none
  | .error .isADirectory => .error (.malformed path .directory)
  | .error e => .error (.inaccessible path e)
  | .ok bytes =>
    match decode bytes with
    | .error e => .error (.malformed path e)
    | .ok record => .ok (some record)

/-- Reads a record that must be there. -/
def require (t : FileTree) (path : Path) : Except RecordError Record :=
  match load t path with
  | .error e => .error e
  | .ok none => .error (.missing path)
  | .ok (some record) => .ok record

/-- Writes a record, making its directory first. -/
def save (r : Record) (t : FileTree) (path : Path) : FileTree × Except RecordError Unit :=
  match t.makeParent path with
  | (t, .error e) => (t, .error (.inaccessible path e))
  | (t, .ok ()) =>
    match t.write path r.encode with
    | .error e => (t, .error (.inaccessible path e))
    | .ok t => (t, .ok ())

end Record
end Bundler
