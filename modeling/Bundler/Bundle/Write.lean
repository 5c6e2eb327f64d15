import Bundler.Bundle.Script
/-!
# Writing chunks

The chunks of a bundle are written beside each other, and nobody decides whose turn it is. To write one
is to open its file, which empties it, to read its modules one after the other, and to close the file
with all that was put together; parts of it may be written out before. Where a module cannot be read,
the file keeps what comes before it. When something went wrong, chunks that were not begun may be left
out. A file that is open for two chunks holds what was written last. `Press.Step` makes one step of one
of the chunks, and `Ends` says what all the steps can lead to. `writeChunks` makes the choices itself.
-/

namespace Bundler

namespace Bundle

/-- A chunk whose file is open. -/
structure Draft where
  chunk : Chunk
  /-- What is to go into the file so far. -/
  text : Bytes
  /-- The modules that are still to be read. -/
  unread : List Path
  /-- Why no more modules are read. -/
  failure : Option LinkError

namespace Draft

/-- A chunk whose file was opened just now. -/
def new (c : Chunk) : Draft := ⟨c, Script.preamble c, c.files.map Prod.fst, none⟩

/-- Reads the next module, if there is one. -/
def read (t : FileTree) (root : Path) (d : Draft) : Option Draft :=
  match d.unread with
  | [] => none
  | module :: rest =>
    match t.read (root.join module) with
    | .error e => some { d with unread := [], failure := some (.inaccessible module e) }
    | .ok source => some { d with text := d.text ++ Script.wrap module source, unread := rest }

/-- A chunk all of whose modules were read, up to the first that cannot be read. -/
def whole (t : FileTree) (root : Path) (c : Chunk) : Draft :=
  let (text, failure) := Script.modules t root (c.files.map Prod.fst)
  ⟨c, Script.preamble c ++ text, [], failure⟩

/-- Where the file is. -/
def path (dir : Path) (d : Draft) : Path := dir.join ⟨d.chunk.fileName⟩

/-- What the file holds when it is closed. -/
def bytes (d : Draft) : Bytes :=
  match d.failure with
  | none => d.text ++ Script.postamble d.chunk
  | some _ => d.text

/-- What went wrong when the file cannot be closed either. -/
def refusal (dir : Path) (d : Draft) (e : IoError) : LinkError := d.failure.getD (.inaccessible (d.path dir) e)

end Draft

/-- Chunks that are written beside each other, between two steps. -/
structure Press where
  tree : FileTree
  /-- Chunks that were not begun. -/
  waiting : List Chunk
  drafts : List Draft
  /-- What went wrong, the first one first. -/
  errors : List LinkError

namespace Press

/-- Before the first step. -/
def start (chunks : List Chunk) (t : FileTree) : Press := ⟨t, chunks, [], []⟩

/-- One step of one of the chunks. -/
inductive Step (root dir : Path) (s : Press) : Press → Prop
  /-- The file of a chunk is opened, which empties it. -/
  | opened {c : Chunk} {rest : List Chunk} {u : FileTree} (turn : s.waiting.Perm (c :: rest))
      (empties : s.tree.write (dir.join ⟨c.fileName⟩) [] = .ok u) :
    Step root dir s { s with tree := u, waiting := rest, drafts := s.drafts ++ [.new c] }
  | refused {c : Chunk} {rest : List Chunk} {e : IoError} (turn : s.waiting.Perm (c :: rest))
      (refuses : s.tree.write (dir.join ⟨c.fileName⟩) [] = .error e) :
    Step root dir s { s with waiting := rest, errors := s.errors ++ [.inaccessible (dir.join ⟨c.fileName⟩) e] }
  /-- After an error a chunk may be left out. -/
  | skipped {c : Chunk} {rest : List Chunk} (turn : s.waiting.Perm (c :: rest)) (failed : s.errors ≠ []) :
    Step root dir s { s with waiting := rest }
  | read {d d' : Draft} {rest : List Draft} (turn : s.drafts.Perm (d :: rest)) (reads : d.read s.tree root = some d') :
    Step root dir s { s with drafts := d' :: rest }
  /-- A part of what is to go into the file is written out early. -/
  | flushed {d : Draft} {part : Bytes} {u : FileTree} (turn : d ∈ s.drafts) (early : part <+: d.text)
      (writes : s.tree.write (d.path dir) part = .ok u) :
    Step root dir s { s with tree := u }
  | closed {d : Draft} {rest : List Draft} {u : FileTree} (turn : s.drafts.Perm (d :: rest)) (done : d.unread = [])
      (writes : s.tree.write (d.path dir) d.bytes = .ok u) :
    Step root dir s { s with tree := u, drafts := rest, errors := s.errors ++ d.failure.toList }
  | stuck {d : Draft} {rest : List Draft} {e : IoError} (turn : s.drafts.Perm (d :: rest)) (done : d.unread = [])
      (refuses : s.tree.write (d.path dir) d.bytes = .error e) :
    Step root dir s { s with drafts := rest, errors := s.errors ++ [d.refusal dir e] }

/-- All that can be come to. -/
inductive Reaches (root dir : Path) : Press → Press → Prop
  | refl (s : Press) : Reaches root dir s s
  | step {s t u : Press} (made : Step root dir s t) (rest : Reaches root dir t u) : Reaches root dir s u

/-- How the writing ends: with one of the errors, if there are any. -/
def verdict (errors : List LinkError) : Except LinkError Unit :=
  match errors with
  | [] => .ok ()
  | e :: _ => .error e

end Press

/-- To write some chunks beside each other can end in a tree, with some errors. -/
def Ends (root dir : Path) (chunks : List Chunk) (t u : FileTree) (errors : List LinkError) : Prop :=
  Press.Reaches root dir (.start chunks t) ⟨u, [], [], errors⟩

/-! ## Writing without choices -/

/-- Opens the files of some chunks. Gives back the chunks whose files are open, and what went wrong. -/
def openAll (dir : Path) : List Chunk → FileTree → FileTree × List Chunk × List LinkError
  | [], t => (t, [], [])
  | c :: rest, t =>
    match t.write (dir.join ⟨c.fileName⟩) [] with
    | .error e =>
      let (t, opened, errors) := openAll dir rest t
      (t, opened, .inaccessible (dir.join ⟨c.fileName⟩) e :: errors)
    | .ok t =>
      let (t, opened, errors) := openAll dir rest t
      (t, c :: opened, errors)

/-- Closes the files of some chunks. Gives back what went wrong. -/
def closeAll (dir : Path) : List Draft → FileTree → FileTree × List LinkError
  | [], t => (t, [])
  | d :: rest, t =>
    match t.write (d.path dir) d.bytes with
    | .error e =>
      let (t, errors) := closeAll dir rest t
      (t, d.refusal dir e :: errors)
    | .ok t =>
      let (t, errors) := closeAll dir rest t
      (t, d.failure.toList ++ errors)

/-- Writes the files of some chunks. All of them are open before the first module is read, and all modules
are read before the first file is closed. -/
def writeChunks (root dir : Path) (chunks : List Chunk) (t : FileTree) : FileTree × Except LinkError Unit :=
  let (t, opened, refused) := openAll dir chunks t
  let (t, failed) := closeAll dir (opened.map (Draft.whole t root)) t
  (t, Press.verdict (refused ++ failed))

/-- Writes chunks and their manifest into a directory, which is made if it is missing. -/
def write (root dir : Path) (chunks : List Chunk) (t : FileTree) :
    FileTree × Except LinkError Manifest :=
  match t.makeDirectories dir with
  | (t, .error e) => (t, .error (.inaccessible dir e))
  | (t, .ok ()) =>
    match writeChunks root dir chunks t with
    | (t, .error e) => (t, .error e)
    | (t, .ok ()) =>
      let manifest := Manifest.ofChunks chunks
      match manifest.save t (dir.join Manifest.fileName) with
      | .error e => (t, .error e)
      | .ok t => (t, .ok manifest)

end Bundle
end Bundler
