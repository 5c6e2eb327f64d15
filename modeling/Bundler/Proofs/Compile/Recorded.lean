import Bundler.Proofs.Compile.File
import Bundler.Proofs.FileTree.Inside
/-!
# Records on disk

A record that was saved is loaded as it was, whatever is behind it in its file, and a part of it is no record at all
(`Record.load_exact`). So a save that was interrupted leaves nothing that counts as a record, and the file is compiled
again (`Compiler.compileFile_of_part`).
-/

namespace Bundler

open FileTree

variable {r : Record} {t u : FileTree} {path : Path} {content part : Bytes}

namespace Record

/-- What a save that is interrupted leaves: the file was opened, and some of the record's bytes are in it. -/
def SavedPart (r : Record) (t : FileTree) (path : Path) (u : FileTree) : Prop :=
  ∃ made part, t.makeParent path = (made, .ok ()) ∧ part <+: r.encode ∧ part ≠ r.encode ∧ made.write path part = .ok u

theorem load_of_part (h : r.Fits) (hpart : part <+: r.encode) (hne : part ≠ r.encode) (hread : t.read path = .ok part) :
    ∃ e, load t path = .error (.malformed path e) := by
  obtain ⟨e, hdecode⟩ := decode_part h hpart hne
  refine ⟨e, ?_⟩
  rw [load, hread]
  dsimp only
  rw [hdecode]

theorem read_of_save (hw : t.WellLinked) (hsave : r.save t path = (u, .ok ())) : u.read path = .ok r.encode := by
  obtain ⟨made, hmake, hwrite⟩ := Compiler.save_ok hsave
  have hgrows := grows_makeParent hw path
  rw [hmake] at hgrows
  exact read_of_write (hgrows.wellLinked hw) hwrite

theorem SavedPart.read (hw : t.WellLinked) (h : r.SavedPart t path u) :
    ∃ part, part <+: r.encode ∧ part ≠ r.encode ∧ u.read path = .ok part := by
  obtain ⟨made, part, hmake, hpart, hne, hwrite⟩ := h
  have hgrows := grows_makeParent hw path
  rw [hmake] at hgrows
  exact ⟨part, hpart, hne, read_of_write (hgrows.wellLinked hw) hwrite⟩

/-- A file that starts with a record is loaded as this record, and one that holds only a part of it is malformed; so
a record is loaded as it was saved, and nothing is loaded after a save that was interrupted. -/
theorem load_exact (h : r.Fits) (t : FileTree) (path : Path) :
    (∀ rest, t.read path = .ok (r.encode ++ rest) → load t path = .ok (some r)) ∧
    (∀ part, part <+: r.encode → part ≠ r.encode → t.read path = .ok part →
      ∃ e, load t path = .error (.malformed path e)) ∧
    (t.WellLinked → ∀ u, r.save t path = (u, .ok ()) → u.read path = .ok r.encode ∧ load u path = .ok (some r)) ∧
    (t.WellLinked → ∀ u, r.SavedPart t path u → ∃ e, load u path = .error (.malformed path e)) := by
  refine ⟨fun rest hread => load_of_read hread (decode_encode h rest),
    fun part hpart hne hread => load_of_part h hpart hne hread, fun hw u hsave => ?_, fun hw u htorn => ?_⟩
  · have hread := read_of_save hw hsave
    exact ⟨hread, load_of_read hread (r.encode.append_nil ▸ decode_encode h [])⟩
  · obtain ⟨part, hpart, hne, hread⟩ := htorn.read hw
    exact load_of_part h hpart hne hread

/-- A record of a script that imports another one. -/
def importingRecord : Record := ⟨⟨"build/src/a.js"⟩, "ab", [⟨"src/b.js"⟩]⟩

/-- The record is saved where there is nothing, not even a directory, and the save may stop right after the file was
opened. -/
theorem load_exact_importing :
    ∃ u torn, importingRecord.save ⟨[], [], []⟩ ⟨"/build/src/a.js.meta.cbor"⟩ = (u, .ok ()) ∧
      importingRecord.SavedPart ⟨[], [], []⟩ ⟨"/build/src/a.js.meta.cbor"⟩ torn ∧
      load u ⟨"/build/src/a.js.meta.cbor"⟩ = .ok (some importingRecord) ∧
      ∃ e, load torn ⟨"/build/src/a.js.meta.cbor"⟩ = .error (.malformed ⟨"/build/src/a.js.meta.cbor"⟩ e) := by
  have hsaved : (importingRecord.save ⟨[], [], []⟩ ⟨"/build/src/a.js.meta.cbor"⟩).2.toOption = some () := by
    decide
  obtain ⟨u, hsave⟩ : ∃ u, importingRecord.save ⟨[], [], []⟩ ⟨"/build/src/a.js.meta.cbor"⟩ = (u, .ok ()) :=
    ⟨_, Prod.ext rfl (eq_of_toOption hsaved)⟩
  obtain ⟨made, hmake, hwrite⟩ := Compiler.save_ok hsave
  have hpart : importingRecord.SavedPart ⟨[], [], []⟩ ⟨"/build/src/a.js.meta.cbor"⟩ _ :=
    ⟨made, [], hmake, List.nil_prefix, by decide, write_of_write hwrite []⟩
  obtain ⟨-, -, hwhole, hbroken⟩ :=
    load_exact (r := importingRecord) (by decide) ⟨[], [], []⟩ ⟨"/build/src/a.js.meta.cbor"⟩
  exact ⟨u, _, hsave, hpart, (hwhole (fun _ hgroup => absurd hgroup List.not_mem_nil) u hsave).2,
    hbroken (fun _ hgroup => absurd hgroup List.not_mem_nil) _ hpart⟩

end Record

namespace Compiler

variable {c : Compiler} {file : SourceFile}

theorem isCurrent_of_error {e : RecordError} (hload : Record.load t (c.recordPath file) = .error e) (hash : String) :
    ¬ c.isCurrent t file hash = true := by
  unfold isCurrent
  rw [hload]
  exact Bool.false_ne_true

/-- A file beside which there is only a part of a record is compiled again. -/
theorem compileFile_of_part (h : r.Fits) (hpart : part <+: r.encode) (hne : part ≠ r.encode)
    (hread : t.read (c.recordPath file) = .ok part) (hsource : t.read (c.root.join (source file)) = .ok content) :
    c.compileFile file t = c.recompile file (Digest.hash content).toHex t := by
  obtain ⟨e, hload⟩ := Record.load_of_part h hpart hne hread
  rw [compileFile_of_read hsource, if_neg (isCurrent_of_error hload _)]

end Compiler

end Bundler
