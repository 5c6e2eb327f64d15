import Bundler.Bundle.Chunk
import Bundler.Proofs.Digest
import Bundler.Proofs.Path
import Bundler.Proofs.Text.Utf8
/-!
# What the name of a chunk tells

The text behind the name of a chunk has a line for each member, one for the module to start, and one
for each file to load, and nothing tells the three kinds apart: a member may be called `start`, and a
path may hold line feeds. It can be read in one way only all the same (`lines_injective`), if the
chunk is not mistaken for one that starts a module. The first part of the name rules that out, so
chunks of one name have the same members, start the same module and load the same files
(`eq_of_fileName`).
-/

namespace Bundler.Chunk

/-- What a chunk holds when its members come from records that the compiler wrote: their digests are
written in hexadecimal, no text has a NUL, and what is loaded is a script. -/
structure Named (c : Chunk) : Prop where
  hash : ∀ m ∈ c.files, Digest.IsHex m.2
  path : ∀ m ∈ c.files, '\x00' ∉ m.1.text.toList
  start : ∀ e, c.entrypoint = some e → '\x00' ∉ e.module.text.toList
  load : ∀ name ∈ c.loads, '\x00' ∉ name.toList ∧ ".js".toList <:+ name.toList

/-- The same with digests in hexadecimal of either case. -/
structure Labelled (c : Chunk) : Prop where
  hash : ∀ m ∈ c.files, Digest.IsHexText m.2
  path : ∀ m ∈ c.files, '\x00' ∉ m.1.text.toList
  start : ∀ e, c.entrypoint = some e → '\x00' ∉ e.module.text.toList
  load : ∀ name ∈ c.loads, '\x00' ∉ name.toList ∧ ".js".toList <:+ name.toList

theorem Named.labelled {c : Chunk} (h : c.Named) : c.Labelled :=
  ⟨fun m hm => (h.hash m hm).text, h.path, h.start, h.load⟩

/-! ## Lines -/

/-- A line has a key, which ends at a NUL, and a value, which ends at a line feed. -/
def line (key value rest : List Char) : List Char := key ++ '\x00' :: (value ++ '\n' :: rest)

/-- The lines of some files to load. -/
def loadLines : List String → List Char
  | [] => []
  | name :: loads => line "load".toList name.toList (loadLines loads)

/-- The lines of what a chunk starts and loads. -/
def startLines : Option Entrypoint → List String → List Char
  | none, loads => loadLines loads
  | some e, loads => line "start".toList e.module.text.toList (loadLines loads)

/-- All lines of a chunk. -/
def lines : List (Path × String) → Option Entrypoint → List String → List Char
  | [], start, loads => startLines start loads
  | m :: files, start, loads => line m.1.text.toList m.2.toList (lines files start loads)

theorem toList_load (name : String) (loads : List String) :
    ["load\x00", name, "\n"].flatMap String.toList ++ loadLines loads = loadLines (name :: loads) := by
  simp [loadLines, line]

theorem flatMap_loads (loads : List String) :
    (loads.flatMap fun name => ["load\x00", name, "\n"]).flatMap String.toList = loadLines loads := by
  induction loads with
  | nil => rfl
  | cons name loads ih => rw [List.flatMap_cons, List.flatMap_append, ih, toList_load]

theorem flatMap_stream (c : Chunk) : c.stream.flatMap String.toList = lines c.files c.entrypoint c.loads := by
  obtain ⟨start, files, loads⟩ := c
  simp only [stream, List.flatMap_append, flatMap_loads]
  induction files with
  | nil => cases start <;> simp [lines, startLines, line]
  | cons m files ih =>
    rw [lines, ← ih]
    simp [line]

/-- The bytes that a chunk is named after. -/
def bytes (c : Chunk) : Bytes := (c.stream.map Utf8.encode).flatten

theorem hash_eq (c : Chunk) : c.hash = Digest.hash c.bytes := rfl

theorem bytes_eq (c : Chunk) : c.bytes = Utf8.encode (String.ofList (lines c.files c.entrypoint c.loads)) := by
  rw [bytes, Utf8.encode, String.toList_ofList, ← flatMap_stream, List.flatMap_assoc, ← List.flatMap_def]
  rfl

/-! ## Reading lines -/

variable {k k' v v' r r' : List Char} {start start' : Option Entrypoint} {files files' : List (Path × String)}
  {loads loads' : List String}

theorem line_injective (hk : '\x00' ∉ k) (hk' : '\x00' ∉ k') (h : line k v r = line k' v' r') :
    k = k' ∧ v ++ '\n' :: r = v' ++ '\n' :: r' := by
  unfold line at h
  induction k generalizing k' with
  | nil =>
    cases k' with
    | nil => exact ⟨rfl, (List.cons.inj h).2⟩
    | cons a k' => exact absurd (List.mem_cons.2 (.inl (List.cons.inj h).1)) hk'
  | cons a k ih =>
    cases k' with
    | nil => exact absurd (List.mem_cons.2 (.inl (List.cons.inj h).1.symm)) hk
    | cons a' k' =>
      rw [List.mem_cons, not_or] at hk hk'
      obtain ⟨ha, h⟩ := List.cons.inj h
      obtain ⟨hkey, hrest⟩ := ih hk.2 hk'.2 h
      exact ⟨by rw [ha, hkey], hrest⟩

theorem nul_mem_line (k v r : List Char) : '\x00' ∈ line k v r := by simp [line]

theorem line_ne_nil : line k v r ≠ [] := List.ne_nil_of_mem (nul_mem_line k v r)

/-- No key of a line that follows `v` reaches into it. -/
theorem value_line (v k v' r : List Char) : v ++ '\n' :: line k v' r = line (v ++ '\n' :: k) v' r := by
  simp [line]

theorem nul_notMem_value (hv : '\x00' ∉ v) (hk : '\x00' ∉ k) : '\x00' ∉ v ++ '\n' :: k := by
  simp only [List.mem_append, List.mem_cons, not_or]
  exact ⟨hv, by decide, hk⟩

/-- A value on its own is not a value with lines behind it. -/
theorem value_ne_line (hv : '\x00' ∉ v) : v ++ '\n' :: [] ≠ line k v' r := fun h => by
  have hnul := nul_notMem_value hv List.not_mem_nil
  rw [h] at hnul
  exact hnul (nul_mem_line _ _ _)

theorem nul_notMem_hex {s : String} (h : Digest.IsHexText s) : '\x00' ∉ s.toList := fun hm => by
  have := h.2 _ hm
  revert this
  decide

theorem nul_notMem_load : '\x00' ∉ "load".toList := by decide

theorem nul_notMem_start : '\x00' ∉ "start".toList := by decide

/-- A digest is not the name of a script. -/
theorem not_script_of_isHex {s : String} (h : Digest.IsHexText s) : ¬ ".js".toList <:+ s.toList := fun hs => by
  have := h.2 's' (hs.subset (by decide))
  revert this
  decide

/-- Lines that hold no NUL are no lines. -/
theorem lines_eq_nil (h : '\x00' ∉ lines files start loads) : lines files start loads = [] ∧ start = none := by
  cases files with
  | cons m files => exact absurd (nul_mem_line _ _ _) h
  | nil =>
    cases start with
    | some e => exact absurd (nul_mem_line _ _ _) h
    | none =>
      cases loads with
      | cons name loads => exact absurd (nul_mem_line _ _ _) h
      | nil => exact ⟨rfl, rfl⟩

/-- A value with loads behind it is read in one way. -/
theorem value_loadLines (hv : '\x00' ∉ v) (hv' : '\x00' ∉ v') (hloads : ∀ name ∈ loads, '\x00' ∉ name.toList)
    (hloads' : ∀ name ∈ loads', '\x00' ∉ name.toList)
    (h : v ++ '\n' :: loadLines loads = v' ++ '\n' :: loadLines loads') : v = v' ∧ loads = loads' := by
  -- Up to the next NUL stands the value and the key of the next load, on both sides.
  induction loads generalizing v v' loads' with
  | nil =>
    cases loads' with
    | nil => exact ⟨List.append_cancel_right h, rfl⟩
    | cons name' loads' =>
      rw [loadLines, loadLines, value_line] at h
      exact absurd h (value_ne_line hv)
  | cons name loads ih =>
    cases loads' with
    | nil =>
      rw [loadLines, loadLines, value_line] at h
      exact absurd h.symm (value_ne_line hv')
    | cons name' loads' =>
      rw [List.forall_mem_cons] at hloads hloads'
      rw [loadLines, loadLines, value_line, value_line] at h
      obtain ⟨hkey, hrest⟩ :=
        line_injective (nul_notMem_value hv nul_notMem_load) (nul_notMem_value hv' nul_notMem_load) h
      obtain ⟨hname, hloads⟩ := ih hloads.1 hloads'.1 hloads.2 hloads'.2 hrest
      rw [String.toList_inj] at hname
      exact ⟨List.append_cancel_right hkey, by rw [hname, hloads]⟩

theorem loadLines_injective (hloads : ∀ name ∈ loads, '\x00' ∉ name.toList)
    (hloads' : ∀ name ∈ loads', '\x00' ∉ name.toList) (h : loadLines loads = loadLines loads') :
    loads = loads' := by
  have h : [] ++ '\n' :: loadLines loads = [] ++ '\n' :: loadLines loads' := by rw [h]
  exact (value_loadLines List.not_mem_nil List.not_mem_nil hloads hloads' h).2

theorem start_ne_load : v ++ '\n' :: "start".toList ≠ v' ++ '\n' :: "load".toList := fun h => by
  have := congrArg List.getLast? h
  simp at this

/-! ## One reading -/

theorem Labelled.tail {m : Path × String} (h : Labelled ⟨start, m :: files, loads⟩) : Labelled ⟨start, files, loads⟩ :=
  ⟨fun _ hm => h.hash _ (List.mem_cons_of_mem _ hm), fun _ hm => h.path _ (List.mem_cons_of_mem _ hm), h.start, h.load⟩

/-- A digest before the lines of a chunk is not mistaken for a value before loads, unless these lines
are loads. -/
theorem digest_loadLines {s : String} (hs : Digest.IsHexText s) (hv : '\x00' ∉ v) (h : Labelled ⟨start, files, loads⟩)
    (hloads' : ∀ name ∈ loads', '\x00' ∉ name.toList ∧ ".js".toList <:+ name.toList)
    (heq : s.toList ++ '\n' :: lines files start loads = v ++ '\n' :: loadLines loads') :
    v = s.toList ∧ start = none := by
  -- Each load on the right faces a member on the left, until one would have to be a digest.
  induction loads' generalizing s v files with
  | nil =>
    have hnul : '\x00' ∉ s.toList ++ '\n' :: lines files start loads := by
      rw [heq]
      exact nul_notMem_value hv List.not_mem_nil
    obtain ⟨hnil, hstart⟩ := lines_eq_nil fun hm => hnul (List.mem_append_right _ (List.mem_cons_of_mem _ hm))
    rw [hnil] at heq
    exact ⟨(List.append_cancel_right heq).symm, hstart⟩
  | cons name loads' ih =>
    rw [List.forall_mem_cons] at hloads'
    rw [loadLines, value_line] at heq
    have hright := nul_notMem_value hv nul_notMem_load
    have hleft {key : List Char} (hkey : '\x00' ∉ key) := nul_notMem_value (nul_notMem_hex hs) hkey
    cases files with
    | cons m files =>
      rw [lines, value_line] at heq
      obtain ⟨-, hrest⟩ := line_injective (hleft (h.path m List.mem_cons_self)) hright heq
      have hm := h.hash m List.mem_cons_self
      obtain ⟨hname, -⟩ := ih hm hloads'.1.1 h.tail hloads'.2 hrest
      refine absurd ?_ (not_script_of_isHex hm)
      rw [← hname]
      exact hloads'.1.2
    | nil =>
      rw [lines] at heq
      cases start with
      | some e =>
        rw [startLines, value_line] at heq
        exact absurd (line_injective (hleft nul_notMem_start) hright heq).1 start_ne_load
      | none =>
        rw [startLines] at heq
        cases loads with
        | nil => exact absurd heq (value_ne_line (nul_notMem_hex hs))
        | cons first loads =>
          rw [loadLines, value_line] at heq
          have hkey := (line_injective (hleft nul_notMem_load) hright heq).1
          exact ⟨(List.append_cancel_right hkey).symm, rfl⟩

/-- A chunk with members is not mistaken for one without, unless a member called `start` is taken for
the module that is started. -/
theorem lines_cons_eq {m : Path × String} (h : Labelled ⟨start, m :: files, loads⟩) (h' : Labelled ⟨start', [], loads'⟩)
    (heq : lines (m :: files) start loads = lines [] start' loads') :
    start = none ∧ ∃ e, start' = some e ∧ Digest.IsHexText e.module.text := by
  have hm := h.hash m List.mem_cons_self
  have hpath := h.path m List.mem_cons_self
  rw [lines, lines] at heq
  cases start' with
  | some e =>
    have hrest := (line_injective hpath nul_notMem_start heq).2
    obtain ⟨hmodule, hnone⟩ := digest_loadLines hm (h'.start e rfl) h.tail h'.load hrest
    rw [String.toList_inj] at hmodule
    exact ⟨hnone, e, rfl, hmodule ▸ hm⟩
  | none =>
    cases loads' with
    | nil => exact absurd heq line_ne_nil
    | cons name loads' =>
      have hname := List.forall_mem_cons.1 h'.load
      have hrest := (line_injective hpath nul_notMem_load heq).2
      obtain ⟨heq, -⟩ := digest_loadLines hm hname.1.1 h.tail hname.2 hrest
      refine absurd ?_ (not_script_of_isHex hm)
      rw [← heq]
      exact hname.1.2

theorem startLines_injective (h : Labelled ⟨start, [], loads⟩) (h' : Labelled ⟨start', [], loads'⟩)
    (heq : startLines start loads = startLines start' loads') :
    start.map (·.module) = start'.map (·.module) ∧ loads = loads' := by
  have hloads : ∀ name ∈ loads, '\x00' ∉ name.toList := fun name hn => (h.load name hn).1
  have hloads' : ∀ name ∈ loads', '\x00' ∉ name.toList := fun name hn => (h'.load name hn).1
  have mixed {e : Entrypoint} {loads loads' : List String} :
      startLines (some e) loads ≠ loadLines loads' := fun heq => by
    cases loads' with
    | nil => exact absurd heq line_ne_nil
    | cons name loads' => exact absurd (line_injective nul_notMem_start nul_notMem_load heq).1 (by decide)
  cases start with
  | none =>
    cases start' with
    | none => exact ⟨rfl, loadLines_injective hloads hloads' heq⟩
    | some e' => exact absurd heq.symm mixed
  | some e =>
    cases start' with
    | none => exact absurd heq mixed
    | some e' =>
      have hrest := (line_injective nul_notMem_start nul_notMem_start heq).2
      obtain ⟨hmodule, hloads⟩ := value_loadLines (h.start e rfl) (h'.start e' rfl) hloads hloads' hrest
      rw [String.toList_inj] at hmodule
      exact ⟨congrArg some (congrArg Path.mk hmodule), hloads⟩

/-- Lines are those of one chunk only, where a chunk that starts nothing is not confused with one that
starts a module named like a digest. -/
theorem lines_injective (h : Labelled ⟨start, files, loads⟩) (h' : Labelled ⟨start', files', loads'⟩)
    (apart : start = none → ∀ e, start' = some e → ¬ Digest.IsHexText e.module.text)
    (apart' : start' = none → ∀ e, start = some e → ¬ Digest.IsHexText e.module.text)
    (heq : lines files start loads = lines files' start' loads') :
    files = files' ∧ start.map (·.module) = start'.map (·.module) ∧ loads = loads' := by
  -- Digests are of one length, so that a member is read off before what follows it.
  induction files generalizing files' with
  | nil =>
    cases files' with
    | nil => exact ⟨rfl, startLines_injective h h' heq⟩
    | cons m' files' =>
      obtain ⟨hnone, e, hsome, hhex⟩ := lines_cons_eq h' h heq.symm
      exact absurd hhex (apart' hnone e hsome)
  | cons m files ih =>
    cases files' with
    | nil =>
      obtain ⟨hnone, e, hsome, hhex⟩ := lines_cons_eq h h' heq
      exact absurd hhex (apart hnone e hsome)
    | cons m' files' =>
      have hm := h.hash m List.mem_cons_self
      have hm' := h'.hash m' List.mem_cons_self
      obtain ⟨hpath, hrest⟩ := line_injective (h.path m List.mem_cons_self) (h'.path m' List.mem_cons_self) heq
      obtain ⟨hhash, hlines⟩ := List.append_inj hrest (hm.1.trans hm'.1.symm)
      obtain ⟨hfiles, hothers⟩ := ih h.tail h'.tail (List.cons.inj hlines).2
      rw [String.toList_inj] at hpath hhash
      exact ⟨by rw [show m = m' from Prod.ext (congrArg Path.mk hpath) hhash, hfiles], hothers⟩

/-! ## The name -/

theorem stem?_of_isHex {p : Path} (h : Digest.IsHexText p.text) : p.stem? = some p.text := by
  have hnot {c : Char} (hc : Hex.isDigit c.toLower = false) : c ∉ p.text.toList := fun hm => by
    rw [h.2 c hm] at hc
    cases hc
  refine Path.stem?_name (hnot (by decide)) (hnot (by decide)) fun hempty => ?_
  have hlength := h.1
  rw [hempty] at hlength
  exact absurd hlength (by decide)

theorem parts_of_fileName {c c' : Chunk} (h : c.fileName = c'.fileName) : c.stem = c'.stem ∧ c.hash = c'.hash := by
  have hlength : c.hash.toHex.toList.length = c'.hash.toHex.toList.length :=
    (Digest.isHex_toHex _).1.trans (Digest.isHex_toHex _).1.symm
  have h := congrArg String.toList h
  simp only [fileName, String.toList_append] at h
  obtain ⟨hstem, hhash⟩ := List.append_inj' (List.append_inj' h rfl).1 hlength
  have hstem := (List.append_inj' hstem rfl).1
  rw [String.toList_inj] at hstem hhash
  exact ⟨hstem, Digest.toHex_injective hhash⟩

/-- A chunk that starts nothing has another name than one that starts a module named like a digest. -/
theorem apart_of_stem {c c' : Chunk} (h : c.stem = c'.stem) (hnone : c.entrypoint = none) (e : Entrypoint)
    (hsome : c'.entrypoint = some e) : ¬ Digest.IsHexText e.module.text := fun hhex => by
  have hlength := hhex.1
  simp only [stem, hnone, hsome, Option.bind_none, Option.bind_some, stem?_of_isHex hhex, Option.getD_none,
    Option.getD_some] at h
  rw [← h] at hlength
  revert hlength
  decide

/-- Chunks of one name have the same members, start the same module and load the same files. -/
theorem Labelled.eq_of_fileName {c c' : Chunk} (h : c.Labelled) (h' : c'.Labelled) (hname : c.fileName = c'.fileName)
    (noCollision : Digest.hash c.bytes = Digest.hash c'.bytes → c.bytes = c'.bytes) :
    c.files = c'.files ∧ c.entrypoint.map (·.module) = c'.entrypoint.map (·.module) ∧ c.loads = c'.loads := by
  obtain ⟨hstem, hhash⟩ := parts_of_fileName hname
  rw [hash_eq, hash_eq] at hhash
  have hlines := noCollision hhash
  rw [bytes_eq, bytes_eq] at hlines
  have hlines := String.ofList_injective (Utf8.encode_injective hlines)
  exact lines_injective h h' (apart_of_stem hstem) (apart_of_stem hstem.symm) hlines

theorem eq_of_fileName {c c' : Chunk} (h : c.Named) (h' : c'.Named) (hname : c.fileName = c'.fileName)
    (noCollision : Digest.hash c.bytes = Digest.hash c'.bytes → c.bytes = c'.bytes) :
    c.files = c'.files ∧ c.entrypoint.map (·.module) = c'.entrypoint.map (·.module) ∧ c.loads = c'.loads :=
  h.labelled.eq_of_fileName h'.labelled hname noCollision

/-- What a chunk is called depends on its members, the module that it starts and what it loads, and on nothing else. -/
theorem fileName_congr {c c' : Chunk} (hfiles : c.files = c'.files)
    (hstart : c.entrypoint.map (·.module) = c'.entrypoint.map (·.module)) (hloads : c.loads = c'.loads) :
    c.fileName = c'.fileName := by
  obtain ⟨start, files, loads⟩ := c
  obtain ⟨start', files', loads'⟩ := c'
  obtain rfl : files = files' := hfiles
  obtain rfl : loads = loads' := hloads
  cases start with
  | none =>
    obtain rfl : start' = none := Option.map_eq_none_iff.1 hstart.symm
    rfl
  | some e =>
    obtain ⟨e', rfl, hmodule⟩ := Option.map_eq_some_iff.1 hstart.symm
    simp only [fileName, stem, hash, stream, Option.bind_some, Option.toList_some, List.flatMap_singleton, hmodule]

/-- Two chunks have one name exactly when they have the same members, start the same module or none, and load the same
files in the same order. So a chunk gets another name when a member is changed, added or removed, and when a chunk that
it loads gets another name. -/
theorem fileName_eq_iff {c c' : Chunk} (h : c.Named) (h' : c'.Named)
    (noCollision : Digest.hash c.bytes = Digest.hash c'.bytes → c.bytes = c'.bytes) :
    (c.fileName = c'.fileName ↔
      c.files = c'.files ∧ c.entrypoint.map (·.module) = c'.entrypoint.map (·.module) ∧ c.loads = c'.loads) ∧
      (c.files ≠ c'.files ∨ c.loads ≠ c'.loads → c.fileName ≠ c'.fileName) := by
  refine ⟨⟨fun hname => eq_of_fileName h h' hname noCollision, fun ⟨hfiles, hstart, hloads⟩ =>
    fileName_congr hfiles hstart hloads⟩, fun hother hname => ?_⟩
  obtain ⟨hfiles, -, hloads⟩ := eq_of_fileName h h' hname noCollision
  exact hother.elim (· hfiles) (· hloads)

/-- A digest in hexadecimal. -/
def someDigest : String := String.ofList (List.replicate 64 'a')

/-- A chunk that starts nothing, with a member that is called `start`. -/
def startMember : Chunk := ⟨none, [(⟨"start"⟩, someDigest)], []⟩

/-- A chunk without members that starts a module named like a digest. -/
def startDigest : Chunk := ⟨some ⟨"a", ⟨someDigest⟩⟩, [], []⟩

theorem isHex_someDigest : Digest.IsHex someDigest := by
  have htext : someDigest.toList = List.replicate 64 'a' := String.toList_ofList
  refine ⟨by rw [htext, List.length_replicate], fun c hc => ?_⟩
  rw [htext] at hc
  rw [List.eq_of_mem_replicate hc]
  rfl

/-- Two chunks with one text behind their names have different names all the same. -/
theorem fileName_ne_of_start : startMember.bytes = startDigest.bytes ∧ startMember.fileName ≠ startDigest.fileName := by
  have hbytes : startMember.bytes = startDigest.bytes := by rfl
  have hmember : startMember.Named :=
    ⟨List.forall_mem_singleton.2 isHex_someDigest, List.forall_mem_singleton.2 (by decide), nofun, nofun⟩
  have hdigest : startDigest.Named :=
    ⟨nofun, nofun, fun e he => Option.some.inj he ▸ nul_notMem_hex isHex_someDigest.text, nofun⟩
  exact ⟨hbytes, (fileName_eq_iff hmember hdigest fun _ => hbytes).2 (.inl (List.cons_ne_nil _ _))⟩

end Bundler.Chunk
