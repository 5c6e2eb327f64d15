import Bundler.Cause
import Bundler.Json.Shape
import Bundler.Json.Text
import Bundler.Record
import Bundler.Resolve
import Bundler.Sorted
/-!
# The manifest of a bundle

The manifest says, for each entrypoint, which file holds its chunk and which files have to be loaded
before it. It is kept as JSON beside the chunks. After a new manifest is written, the files that
only the one before names are pruned.
-/

namespace Bundler

/-- Why linking failed. -/
inductive LinkError where
  | resolve (error : ResolveError)
  /-- An imported module has no compiled file. -/
  | missingImport (missing importer : Path)
  | record (error : RecordError)
  | inaccessible (path : Path) (error : IoError)
  /-- A manifest that cannot be understood. -/
  | malformedManifest (error : Json.Error)
  deriving DecidableEq, Repr

/-- The text of the error, its cause worded by `say`. -/
def LinkError.message (say : Cause → String) : LinkError → String
  | .resolve e => e.message say
  | .missingImport missing importer =>
    importer.text ++ " imports " ++ missing.text ++ ", which was never compiled"
  | .record e => e.message say
  | .inaccessible path e => "Couldn't access " ++ path.text ++ ":\n" ++ say (.io e)
  | .malformedManifest e => "Couldn't serialize bundle data:\n" ++ say (.json e)

/-- Where an entrypoint is: the file of its chunk, and the files to load before it. -/
structure ManifestEntry where
  file : String
  loads : List String
  deriving DecidableEq, Repr

/-- Entries by specifier, in ascending order. -/
structure Manifest where
  entries : List (String × ManifestEntry)
  ascending : Sorted.Ascending Ord.compare entries
  deriving DecidableEq, Repr

namespace Manifest

/-- The name of the manifest's file in its directory. -/
def fileName : Path := ⟨"manifest.json"⟩

/-- No entrypoints. -/
def empty : Manifest := ⟨[], List.Pairwise.nil⟩

instance : Inhabited Manifest := ⟨empty⟩

/-- Adds an entrypoint, in the place of any other of its specifier. -/
def register (m : Manifest) (specifier file : String) (loads : List String) : Manifest :=
  ⟨Sorted.insert Ord.compare specifier ⟨file, loads⟩ m.entries,
    Sorted.ascending_insert Ord.compare specifier _ m.ascending⟩

/-- The entry of a specifier. -/
def get? (m : Manifest) (specifier : String) : Option ManifestEntry :=
  Sorted.find? Ord.compare specifier m.entries

/-- All files that the manifest names, ascending. -/
def files (m : Manifest) : List String :=
  Sorted.keys Ord.compare (m.entries.flatMap fun (_, entry) => entry.file :: entry.loads)

/-! ## JSON -/

/-- An entry as it is written at a nesting level. -/
def ManifestEntry.toJson (level : Nat) (entry : ManifestEntry) : String :=
  Json.prettyObject level
    [("file", Json.quote entry.file),
      ("loads", Json.prettyArray (level + 1) (entry.loads.map Json.quote))]

/-- The text of the manifest. -/
def toJson (m : Manifest) : String :=
  Json.prettyObject 0
    [("entrypoints",
      Json.prettyObject 1 (m.entries.map fun (specifier, entry) =>
        (specifier, ManifestEntry.toJson 2 entry)))]

/-- An entry in JSON. -/
def entryShape : Json.Shape ManifestEntry where
  name := "ManifestEntry"
  start := ⟨"", []⟩
  fields :=
    [("file", (Json.text "a string").into fun entry file => { entry with file }),
      ("loads", (Json.list (Json.text "a string")).into fun entry loads => { entry with loads })]
  complete := true
  closed := false

/-- The manifest of some entries. Of a repeated specifier the last entry counts. -/
def ofEntries (entries : List (String × ManifestEntry)) : Manifest :=
  ⟨Sorted.ofList Ord.compare entries, Sorted.ascending_ofList Ord.compare entries⟩

/-- A manifest in JSON. -/
def shape : Json.Shape Manifest where
  name := "Manifest"
  start := empty
  fields := [("entrypoints", (Json.map entryShape.read).into fun _ entries => ofEntries entries)]
  complete := true
  closed := false

/-- The manifest that some bytes hold. -/
def decode (bytes : Bytes) : Except Json.Error Manifest := shape.read.decode bytes

/-! ## Files -/

/-- Reads a manifest; there may be none. -/
def load (t : FileTree) (path : Path) : Except LinkError (Option Manifest) :=
  match t.read path with
  | .error .notFound => .ok none
  | .error e => .error (.inaccessible path e)
  | .ok bytes =>
    match decode bytes with
    | .error e => .error (.malformedManifest e)
    | .ok m => .ok (some m)

/-- Writes the manifest. -/
def save (m : Manifest) (t : FileTree) (path : Path) : Except LinkError FileTree :=
  match t.write path (Utf8.encode m.toJson) with
  | .error e => .error (.inaccessible path e)
  | .ok t => .ok t

/-- Removes files from a directory as far as that can be done, and counts them. -/
def removeAll (dir : Path) : List String → FileTree × Nat → FileTree × Nat
  | [], done => done
  | file :: rest, (t, removed) =>
    match t.removeFile (dir.join ⟨file⟩) with
    | .ok t => removeAll dir rest (t, removed + 1)
    | .error _ => removeAll dir rest (t, removed)

/-- The files that this manifest names and `current` does not. -/
def stale (m current : Manifest) : List String :=
  m.files.filter fun file => ! current.files.contains file

/-- Removes the stale files of a directory and counts them. -/
def prune (m : Manifest) (dir : Path) (current : Manifest) (t : FileTree) : FileTree × Nat :=
  removeAll dir (m.stale current) (t, 0)

end Manifest
end Bundler
