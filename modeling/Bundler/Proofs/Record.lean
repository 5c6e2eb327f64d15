import Bundler.Proofs.Cbor.Takes
import Bundler.Proofs.Path
import Bundler.Record
/-!
# Records are read back

A record that was written is read back (`decode_encode`), and a record that was written in part is
none (`decode_part`). What is loaded is what the bytes of a file say (`read_of_load`).
-/

namespace Bundler.Record

open Cbor

variable {r : Record}

/-- The lengths in a record are ones of 64 bits, as all lengths in memory are. -/
structure Fits (r : Record) : Prop where
  filename : (Utf8.encode r.filename.text).length < wordCount
  hash : (Utf8.encode r.hash).length < wordCount
  imports : r.imports.length < wordCount
  import_ : ∀ i ∈ r.imports, (Utf8.encode i.text).length < wordCount

instance (r : Record) : Decidable r.Fits :=
  decidable_of_iff ((Utf8.encode r.filename.text).length < wordCount ∧ (Utf8.encode r.hash).length < wordCount ∧
      r.imports.length < wordCount ∧ ∀ i ∈ r.imports, (Utf8.encode i.text).length < wordCount)
    ⟨fun ⟨filename, hash, imports, import_⟩ => ⟨filename, hash, imports, import_⟩,
      fun h => ⟨h.filename, h.hash, h.imports, h.import_⟩⟩

theorem length_encode_le (s : String) : (Utf8.encode s).length ≤ (text s).length := by simp [text]

/-- Written paths are as long as they are many, and as each of them. -/
theorem length_texts (paths : List Path) : paths.length ≤ (paths.map fun p => text p.text).flatten.length ∧
    ∀ p ∈ paths, (Utf8.encode p.text).length ≤ (paths.map fun p => text p.text).flatten.length := by
  induction paths with
  | nil => exact ⟨Nat.le_refl 0, fun p hp => absurd hp List.not_mem_nil⟩
  | cons first rest ih =>
    simp only [List.map_cons, List.flatten_cons, List.length_append, List.length_cons, List.forall_mem_cons]
    have hpos := List.length_pos_iff.2 (text_ne_nil first.text)
    have hfirst := length_encode_le first.text
    exact ⟨by omega, by omega, fun p hp => Nat.le_trans (ih.2 p hp) (Nat.le_add_left _ _)⟩

/-- What is written of a record is as long as all that is in it. -/
theorem fits_of_length (h : r.encode.length < wordCount) : r.Fits := by
  have hlength : (text r.filename.text).length + (text r.hash).length +
      (r.imports.map fun i => text i.text).flatten.length ≤ r.encode.length := by
    simp only [encode, Cbor.map, array, List.flatMap_cons, List.flatMap_nil, List.length_append, List.length_nil]
    omega
  obtain ⟨hcount, himports⟩ := length_texts r.imports
  have hfilename := length_encode_le r.filename.text
  have hhash := length_encode_le r.hash
  exact ⟨by omega, by omega, by omega, fun i hi => Nat.lt_of_le_of_lt (himports i hi) (by omega)⟩

theorem takes_imports (h : r.Fits) :
    Takes (list "a UTF-8 path string" string) (array (r.imports.map fun p => text p.text))
      (r.imports.map Path.text) := by
  have himports : r.imports.map (fun p => text p.text) = (r.imports.map Path.text).map text := by rw [List.map_map]; rfl
  rw [himports]
  refine takes_list (fun s hs => ?_) (by rw [List.length_map]; exact h.imports)
  obtain ⟨i, hi, rfl⟩ := List.mem_map.1 hs
  exact ⟨takes_string (h.import_ i hi), text_ne_nil _⟩

/-- A record is taken as it is written, field by field. -/
theorem takes_encode (h : r.Fits) : Takes shape.read r.encode r := by
  have names : Utf8.encode "filename" ≠ Utf8.encode "hash" ∧ Utf8.encode "filename" ≠ Utf8.encode "imports" ∧
      Utf8.encode "hash" ≠ Utf8.encode "imports" := by decide
  have hfilename := (takes_string h.filename).into (fun (r : Record) filename => { r with filename := ⟨filename⟩ })
    shape.start
  have hhash := (takes_string h.hash).into (fun (r : Record) hash => { r with hash })
    { shape.start with filename := r.filename }
  have himports := (takes_imports h).into (fun (r : Record) imports => { r with imports := imports.map Path.mk })
    { shape.start with filename := r.filename, hash := r.hash }
  have hdone : Takes (membersLeft shape 0 ["imports", "hash", "filename"] r) [] r :=
    takes_membersLeft_zero (by simp [shape])
  have hback : (r.imports.map Path.text).map Path.mk = r.imports := by
    rw [List.map_map]
    exact List.map_id _
  rw [hback] at himports
  have hmembers := takes_membersLeft_succ (by decide) (by simp [Shape.find?, shape]) (by decide) hfilename
    (takes_membersLeft_succ (by decide) (by simp [Shape.find?, shape, names]) (by decide) hhash
      (takes_membersLeft_succ (by decide) (by simp [Shape.find?, shape, names]) (by decide) himports hdone))
  have := takes_read (by decide) hmembers
  simpa [encode, Cbor.map] using this

/-- A record that was written is read back, whatever follows it. -/
theorem decode_encode (h : r.Fits) (rest : Bytes) : decode (r.encode ++ rest) = .ok r := (takes_encode h).decode rest

/-- A record that was written in part is none. -/
theorem decode_part (h : r.Fits) {pre : Bytes} (hpre : pre <+: r.encode) (hne : pre ≠ r.encode) :
    ∃ e, decode pre = .error e :=
  (takes_encode h).decode_part hpre hne

/-- A part of a record that can be read is all of it. -/
theorem eq_of_decode (h : r.Fits) {pre : Bytes} {r' : Record} (hpre : pre <+: r.encode) (hread : decode pre = .ok r') :
    pre = r.encode := by
  by_cases hne : pre = r.encode
  · exact hne
  · obtain ⟨e, he⟩ := decode_part h hpre hne
    rw [he] at hread
    cases hread

/-! ## On disk -/

variable {t : FileTree} {path : Path}

/-- The record of a file below a root lies beside the file. -/
theorem join_pathFor (root file : Path) : root.join (pathFor file) = ⟨(root.join file).text ++ suffix⟩ :=
  congrArg Path.mk (Path.join_append root file (by decide))

theorem read_of_load (h : load t path = .ok (some r)) :
    ∃ content, t.read path = .ok content ∧ decode content = .ok r := by
  unfold load at h
  split at h
  · cases h
  · cases h
  · cases h
  · next content hread =>
    split at h
    · cases h
    · next hdecode =>
      cases h
      exact ⟨content, hread, hdecode⟩

theorem load_of_read {content : Bytes} (hread : t.read path = .ok content) (hdecode : decode content = .ok r) :
    load t path = .ok (some r) := by
  rw [load, hread]
  dsimp only
  rw [hdecode]

theorem read_of_require (h : require t path = .ok r) :
    ∃ content, t.read path = .ok content ∧ decode content = .ok r := by
  unfold require at h
  split at h
  · cases h
  · cases h
  · next hload =>
    cases h
    exact read_of_load hload

theorem require_of_read {content : Bytes} (hread : t.read path = .ok content) (hdecode : decode content = .ok r) :
    require t path = .ok r := by
  rw [require, load_of_read hread hdecode]

end Bundler.Record
