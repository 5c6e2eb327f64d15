import Bundler.Bundle.Find
import Bundler.Digest
/-!
# Chunks

A chunk is a set of modules that goes into one file, perhaps with an entrypoint to start and other
chunks to load before. Its file is named after the digest of what goes into it. With
`perEntrypoint`, each entrypoint has a chunk with all that it reaches; with `splitCommon`, what
several entrypoints reach moves to a chunk of its own.
-/

namespace Bundler

/-- Modules that go into one file. -/
structure Chunk where
  entrypoint : Option Entrypoint
  /-- The modules in path order, with the digests of their sources. -/
  files : List (Path × String)
  /-- The files to load before the entrypoint starts. -/
  loads : List String
  deriving DecidableEq, Repr

namespace Chunk

/-- The text that a chunk is named after: its members, what it starts, and what it loads. -/
def stream (c : Chunk) : List String :=
  (c.files.flatMap fun (path, hash) => [path.text, "\x00", hash, "\n"]) ++
    (c.entrypoint.toList.flatMap fun e => ["start\x00", e.module.text, "\n"]) ++
    (c.loads.flatMap fun name => ["load\x00", name, "\n"])

/-- The digest of what goes into the chunk. -/
def hash (c : Chunk) : Digest := Digest.hashAll (c.stream.map Utf8.encode)

/-- The name of a chunk that starts nothing. -/
def commonName : String := "common"

/-- What the file name begins with: the name of the entrypoint's module without its extension. -/
def stem (c : Chunk) : String := (c.entrypoint.bind fun e => e.module.stem?).getD commonName

/-- The name of the chunk's file. -/
def fileName (c : Chunk) : String := c.stem ++ "." ++ c.hash.toHex ++ ".js"

end Chunk

/-- A way to distribute files over chunks. -/
inductive Chunker where
  | perEntrypoint
  | splitCommon
  deriving DecidableEq, Repr

namespace Chunker

/-- The chosen files with their digests. -/
def members (files : BundleFiles) (chosen : BundleFile → Bool) : List (Path × String) :=
  (files.filter fun (_, file) => chosen file).map fun (path, file) => (path, file.record.hash)

/-- Whether an entrypoint reaches a file. -/
def reaches (e : Entrypoint) (file : BundleFile) : Bool := file.entrypoints.contains e.specifier

/-- Whether several entrypoints reach a file. -/
def isShared (file : BundleFile) : Bool := decide (1 < file.entrypoints.length)

/-- Each entrypoint with all that it reaches. -/
def separate (entrypoints : List Entrypoint) (files : BundleFiles) : List Chunk :=
  entrypoints.map fun e => ⟨some e, members files (reaches e), []⟩

/-- Each entrypoint with all that it alone reaches; the common chunk comes last. -/
def split (entrypoints : List Entrypoint) (files : BundleFiles) : List Chunk :=
  let common : Chunk := ⟨none, members files isShared, []⟩
  let own (e : Entrypoint) : Chunk :=
    { entrypoint := some e
      files := members files fun file => reaches e file && ! isShared file
      loads :=
        if files.any (fun (_, file) => reaches e file && isShared file) then [common.fileName]
        else [] }
  entrypoints.map own ++ [common]

/-- The chunks of some files. Where no file is shared there is no common chunk. -/
def chunks (entrypoints : List Entrypoint) (files : BundleFiles) : Chunker → List Chunk
  | .perEntrypoint => separate entrypoints files
  | .splitCommon =>
    if files.any (fun (_, file) => isShared file) then split entrypoints files
    else separate entrypoints files

end Chunker

/-- The manifest of some chunks. -/
def Manifest.ofChunks (chunks : List Chunk) : Manifest :=
  chunks.foldl (fun m c =>
    match c.entrypoint with
    | some e => m.register e.specifier c.fileName c.loads
    | none => m) Manifest.empty

end Bundler
