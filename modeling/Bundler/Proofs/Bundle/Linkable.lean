import Bundler.Proofs.Bundle.Missed
import Bundler.Proofs.FileTree.Inside
import Bundler.Proofs.Text.Utf8
/-!
# What can be linked

A search finds a bundle exactly where nothing that can be reached is missing (`find_ok_iff_linkable`): where
something is missing it fails for that, and what it followed to the end was all there. The record of a file is read
once, for the spelling of its path that is met first, and that is the one exception: another spelling may be so
long that no record could be read beside it (`find_slashed`).
-/

namespace Bundler

open Relation (ReflTransGen)

variable {t : FileTree} {root p q : Path} {specifiers : List String} {r : Record}

/-- A record that is read for one spelling of a file's path is read for another one, if that is not too long. -/
theorem Record.require_of_same (hfile : t.isFile (root.join p) = true) (hsame : p.Same q)
    (hshort : (root.join (pathFor p)).text.utf8ByteSize ≤ FileTree.maxPath)
    (h : require t (root.join (pathFor q)) = .ok r) : require t (root.join (pathFor p)) = .ok r := by
  rw [join_pathFor] at h hshort ⊢
  obtain ⟨content, hread, hdecode⟩ := read_of_require h
  have hplace := FileTree.place_join_of_same root hsame
  have hbeside := FileTree.read_beside_of_same hplace hfile (by decide) (by decide) (by decide) hshort hread
  exact require_of_read hbeside hdecode

namespace Bundle

variable {s : Search} {b : Bundle}

/-- Nothing that can be reached is missing. -/
structure Linkable (t : FileTree) (root : Path) (specifiers : List String) : Prop where
  resolves : ∀ specifier ∈ specifiers, ∃ m, resolve t root ⟨""⟩ specifier = .ok m
  recorded : ∀ p, Reachable t root specifiers p → ∃ r, Record.require t (root.join (Record.pathFor p)) = .ok r
  compiled : ∀ p r, Reachable t root specifiers p → Record.require t (root.join (Record.pathFor p)) = .ok r →
    ∀ i ∈ r.imports, t.isFile (root.join i) = true

/-- Where a path is reached in two spellings, each is short enough for a record to be read beside it. -/
def ShortSpellings (t : FileTree) (root : Path) (specifiers : List String) : Prop :=
  ∀ p q, Reachable t root specifiers p → Reachable t root specifiers q → p.Same q → p ≠ q →
    (root.join (Record.pathFor p)).text.utf8ByteSize ≤ FileTree.maxPath

theorem Reachable.tail (h : Reachable t root specifiers p)
    (hr : Record.require t (root.join (Record.pathFor p)) = .ok r)
    (hq : q ∈ r.imports) : Reachable t root specifiers q := by
  obtain ⟨specifier, hasked, m, hresolve, hchain⟩ := h
  exact ⟨specifier, hasked, m, hresolve, hchain.tail ⟨r, hr, hq⟩⟩

/-- What holds for the modules and passes from each file to what its record lists holds for all that is reached. -/
theorem Reachable.induct {P : Path → Prop} (h : Reachable t root specifiers p)
    (hmodule : ∀ specifier ∈ specifiers, ∀ m, resolve t root ⟨""⟩ specifier = .ok m → P m)
    (himport : ∀ p r, Reachable t root specifiers p → Record.require t (root.join (Record.pathFor p)) = .ok r → P p →
      ∀ i ∈ r.imports, P i) : P p := by
  obtain ⟨specifier, hasked, m, hresolve, hchain⟩ := h
  induction hchain with
  | refl => exact hmodule specifier hasked m hresolve
  | tail hchain hstep ih =>
    obtain ⟨r, hr, hi⟩ := hstep
    exact himport _ r ⟨specifier, hasked, m, hresolve, hchain⟩ hr ih _ hi

/-- The records of what is reached list neat paths. -/
def NeatImports (t : FileTree) (root : Path) (specifiers : List String) : Prop :=
  ∀ p r, Reachable t root specifiers p → Record.require t (root.join (Record.pathFor p)) = .ok r →
    ∀ i ∈ r.imports, i.Neat

/-- If the records list neat paths, whatever is reached has one spelling. -/
theorem Reachable.neat (hneat : NeatImports t root specifiers) (h : Reachable t root specifiers p) : p.Neat :=
  h.induct (fun _ _ _ hresolve => neat_resolve hresolve) fun p r hp hr _ i hi => hneat p r hp hr i hi

theorem shortSpellings_of_neat (hneat : NeatImports t root specifiers) : ShortSpellings t root specifiers :=
  fun _ _ hp hq hsame hne => absurd ((hp.neat hneat).eq_of_same (hq.neat hneat) hsame) hne

/-! ## What was followed to the end -/

namespace Followed

variable (hs : Followed t root specifiers b s)
include hs

theorem reachable {entry : Path × Record} (h : entry ∈ s.records) : Reachable t root specifiers entry.1 := by
  obtain ⟨m, hm, hchain⟩ := hs.valid.reached entry h
  obtain ⟨e, he, rfl⟩ := List.mem_map.1 hm
  exact ⟨e.specifier, mem_keepFirst.1 (hs.asked ▸ List.mem_map_of_mem he), e.module, hs.resolved e he, hchain⟩

theorem exists_entrypoint {specifier : String} (h : specifier ∈ specifiers) :
    ∃ e ∈ b.entrypoints, e.specifier = specifier := by
  have hasked := mem_keepFirst.2 h
  rw [← hs.asked] at hasked
  exact List.mem_map.1 hasked

/-- All that can be reached was found, and the record of what was found is read for its spelling too. -/
theorem exists_record (hshort : ShortSpellings t root specifiers) (h : Reachable t root specifiers p) :
    ∃ entry ∈ s.records, p.Same entry.1 ∧ Record.require t (root.join (Record.pathFor p)) = .ok entry.2 := by
  refine h.induct (P := fun p => ∃ entry ∈ s.records, p.Same entry.1 ∧
      Record.require t (root.join (Record.pathFor p)) = .ok entry.2)
    (fun specifier hasked m hresolve => ?_) fun p r hp hr ⟨entry, hentry, _, hrecord⟩ i hi => ?_
  · obtain ⟨e, he, rfl⟩ := hs.exists_entrypoint hasked
    obtain rfl : e.module = m := Except.ok.inj ((hs.resolved e he).symm.trans hresolve)
    obtain ⟨entry, hentry, hkey⟩ := List.mem_map.1 (hs.starts e he)
    exact ⟨entry, hentry, hkey ▸ rfl, hkey ▸ hs.valid.record entry hentry⟩
  · obtain rfl : r = entry.2 := Except.ok.inj (hr.symm.trans hrecord)
    obtain ⟨hfile, found, hfound, hsame⟩ := hs.valid.follows hs.done entry hentry i hi
    refine ⟨found, hfound, hsame, ?_⟩
    by_cases heq : i = found.1
    · exact heq ▸ hs.valid.record found hfound
    · have hlength := hshort i found.1 (hp.tail hr hi) (hs.reachable hfound) hsame heq
      exact Record.require_of_same hfile hsame hlength (hs.valid.record found hfound)

theorem linkable (hshort : ShortSpellings t root specifiers) : Linkable t root specifiers where
  resolves specifier hasked := by
    obtain ⟨e, he, rfl⟩ := hs.exists_entrypoint hasked
    exact ⟨e.module, hs.resolved e he⟩
  recorded p hp := by
    obtain ⟨entry, -, -, hrecord⟩ := hs.exists_record hshort hp
    exact ⟨entry.2, hrecord⟩
  compiled p r hp hr i hi := by
    obtain ⟨entry, hentry, -, hrecord⟩ := hs.exists_record hshort hp
    obtain rfl : r = entry.2 := Except.ok.inj (hr.symm.trans hrecord)
    exact (hs.valid.follows hs.done entry hentry i hi).1

end Followed

/-! ## What a search fails for -/

/-- A search does not fail where nothing is missing. -/
theorem Linkable.not_misses (h : Linkable t root specifiers) {e : LinkError} : ¬ Misses t root specifiers e := by
  intro hmiss
  cases hmiss with
  | unresolved asked resolved =>
    obtain ⟨m, hm⟩ := h.resolves _ asked
    rw [hm] at resolved
    cases resolved
  | module asked resolved record =>
    obtain ⟨r, hr⟩ := h.recorded _ ⟨_, asked, _, resolved, .refl⟩
    rw [hr] at record
    cases record
  | imported listed mem _ record reachable =>
    obtain ⟨r, hr⟩ := h.recorded _ (reachable.tail listed mem)
    rw [hr] at record
    cases record
  | missing listed mem compiled reachable =>
    rw [h.compiled _ _ reachable listed _ mem] at compiled
    cases compiled

theorem Linkable.find_ok (h : Linkable t root specifiers) : ∃ b, find t root specifiers = .ok b := by
  cases hfind : find t root specifiers with
  | error e => exact absurd (misses_of_find hfind) h.not_misses
  | ok b => exact ⟨b, rfl⟩

/-- A bundle is found exactly where nothing that can be reached is missing, but for spellings that are too long for
a record. A search that misses an import was led to the importer, which lists it. -/
theorem find_ok_iff_linkable (t : FileTree) (root : Path) (specifiers : List String) :
    (Linkable t root specifiers → ∃ b, find t root specifiers = .ok b) ∧
    (ShortSpellings t root specifiers → (∃ b, find t root specifiers = .ok b) → Linkable t root specifiers) ∧
    ∀ i importer, find t root specifiers = .error (.missingImport i importer) →
      Reachable t root specifiers importer ∧
      (∃ r, Record.require t (root.join (Record.pathFor importer)) = .ok r ∧ i ∈ r.imports) ∧
      t.isFile (root.join i) = false := by
  refine ⟨Linkable.find_ok, fun hshort ⟨b, hfind⟩ => ?_, fun i importer hfind => ?_⟩
  · obtain ⟨s, hs⟩ := exists_followed hfind
    exact hs.linkable hshort
  · cases misses_of_find hfind with
    | missing listed mem compiled reachable => exact ⟨reachable, ⟨_, listed, mem⟩, compiled⟩

/-- The rings without the compiled file of a script. -/
def brokenRings : FileTree := { rings with entries := rings.entries.filter fun entry => entry.1 ≠ ["b", "y.js"] }

theorem resolve_rings : ∀ specifier ∈ ["./x", "./y", "./z.js"], ∃ entry ∈ ringRecords,
    (resolve rings ⟨"b"⟩ ⟨""⟩ specifier).toOption = some entry.1 := by decide

theorem require_rings : ∀ entry ∈ ringRecords,
    (Record.require rings (Path.join ⟨"b"⟩ (Record.pathFor entry.1))).toOption = some entry.2 ∧
      ∀ i ∈ entry.2.imports, ∃ other ∈ ringRecords, other.1 = i := by decide

theorem find_brokenRings : find brokenRings ⟨"b"⟩ ["./x"] = .error (.missingImport ⟨"y.js"⟩ ⟨"x.js"⟩) := by
  decide

/-- The rings are all that is reached in their tree. -/
theorem exists_ringRecord (hasked : ∀ specifier ∈ specifiers, specifier ∈ ["./x", "./y", "./z.js"])
    (h : Reachable rings ⟨"b"⟩ specifiers p) : ∃ entry ∈ ringRecords, entry.1 = p ∧
      Record.require rings (Path.join ⟨"b"⟩ (Record.pathFor p)) = .ok entry.2 := by
  suffices hentry : ∃ entry ∈ ringRecords, entry.1 = p by
    obtain ⟨entry, hmem, rfl⟩ := hentry
    exact ⟨entry, hmem, rfl, FileTree.eq_of_toOption (require_rings entry hmem).1⟩
  refine h.induct (P := fun p => ∃ entry ∈ ringRecords, entry.1 = p) (fun specifier hspecifier m hresolve => ?_)
    fun p r _ hr ⟨entry, hmem, heq⟩ i hi => ?_
  · obtain ⟨entry, hmem, heq⟩ := resolve_rings specifier (hasked specifier hspecifier)
    exact ⟨entry, hmem, Except.ok.inj ((FileTree.eq_of_toOption heq).symm.trans hresolve)⟩
  · subst heq
    rw [FileTree.eq_of_toOption (require_rings entry hmem).1, Except.ok.injEq] at hr
    exact (require_rings entry hmem).2 i (hr ▸ hi)

theorem neat_rings (hasked : ∀ specifier ∈ specifiers, specifier ∈ ["./x", "./y", "./z.js"]) :
    NeatImports rings ⟨"b"⟩ specifiers := by
  intro p r hp hr i hi
  obtain ⟨entry, hmem, -, hrecord⟩ := exists_ringRecord hasked hp
  rw [hr, Except.ok.injEq] at hrecord
  exact neat_ringRecords entry hmem i (hrecord ▸ hi)

/-- The rings can be linked; when a script of a ring is gone, the script that imports it is named. -/
theorem linkable_rings :
    ShortSpellings rings ⟨"b"⟩ ["./x", "./z.js", "./x"] ∧ (∃ b, find rings ⟨"b"⟩ ["./x", "./z.js", "./x"] = .ok b) ∧
      Linkable rings ⟨"b"⟩ ["./x", "./z.js", "./x"] ∧
      find brokenRings ⟨"b"⟩ ["./x"] = .error (.missingImport ⟨"y.js"⟩ ⟨"x.js"⟩) ∧
      Reachable brokenRings ⟨"b"⟩ ["./x"] ⟨"x.js"⟩ := by
  have hshort : ShortSpellings rings ⟨"b"⟩ ["./x", "./z.js", "./x"] := shortSpellings_of_neat (neat_rings (by decide))
  obtain ⟨-, hlinkable, -⟩ := find_ok_iff_linkable rings ⟨"b"⟩ ["./x", "./z.js", "./x"]
  obtain ⟨-, -, hmissing⟩ := find_ok_iff_linkable brokenRings ⟨"b"⟩ ["./x"]
  exact ⟨hshort, ⟨_, find_repeated⟩, hlinkable hshort ⟨_, find_repeated⟩, find_brokenRings,
    (hmissing _ _ find_brokenRings).1⟩

end Bundle

/-! ## A spelling too long for a record -/

section Slashes

variable {here : Location} {front last : String} {content : Bytes}

/-- Some slashes. -/
def slashes : Nat → String
  | 0 => ""
  | n + 1 => "/" ++ slashes n

theorem utf8ByteSize_slashes (n : Nat) : (slashes n).utf8ByteSize = n := by
  induction n with
  | zero => rfl
  | succ n ih =>
    have hslash : "/".utf8ByteSize = 1 := rfl
    rw [slashes, String.utf8ByteSize_append, ih, hslash, Nat.add_comm]

theorem toList_slashes (n : Nat) : (slashes n).toList = List.replicate n '/' := by
  induction n with
  | zero => rfl
  | succ n ih =>
    rw [slashes, String.toList_append, ih]
    rfl

/-- More slashes between the names of a path are empty pieces. -/
theorem Path.pieces_slashes (n : Nat) (front last : String) : Path.pieces ⟨front ++ "/" ++ slashes n ++ last⟩ =
    Path.pieces ⟨front⟩ ++ (List.replicate n "" ++ Path.pieces ⟨last⟩) := by
  have hmore (n : Nat) (cs : List Char) :
      splitSlash (List.replicate n '/' ++ cs) = List.replicate n [] ++ splitSlash cs := by
    induction n with
    | zero => rfl
    | succ n ih =>
      rw [List.replicate_succ, List.cons_append, ← List.nil_append ('/' :: _), splitSlash_append_slash, ih]
      rfl
  have htext : (front ++ "/" ++ slashes n ++ last).toList =
      front.toList ++ '/' :: (List.replicate n '/' ++ last.toList) := by
    simp [toList_slashes]
  rw [pieces, htext, splitSlash_append_slash, hmore, List.map_append, List.map_append, List.map_replicate]
  rfl

theorem FileTree.follow_slashes (hdir : t.node? here = some .directory) (n : Nat) (ps : List String) :
    t.follow here (List.replicate n "" ++ ps) = t.follow here ps :=
  follow_append ps (follow_of_empty (fun _ h => List.eq_of_mem_replicate h) hdir)

/-- A file is read with more slashes in its path as long as the path is not too long. -/
theorem FileTree.read_slashes (hlast : '/' ∉ last.toList) (n : Nat)
    (hshort : (front ++ "/" ++ slashes n ++ last).utf8ByteSize ≤ maxPath)
    (h : t.read ⟨front ++ "/" ++ last⟩ = .ok content) :
    t.read ⟨front ++ "/" ++ slashes n ++ last⟩ = .ok content := by
  have hpieces (n : Nat) : Path.pieces ⟨front ++ "/" ++ slashes n ++ last⟩ =
      Path.pieces ⟨front⟩ ++ (List.replicate n "" ++ [last]) := by
    rw [Path.pieces_slashes, Path.pieces_of_notMem hlast]
  obtain ⟨-, hfollow, hnode⟩ := at?_eq_some.1 (read_eq_ok.1 h)
  have hplain := hpieces 0
  rw [slashes, String.append_empty, List.replicate_zero, List.nil_append] at hplain
  rw [hplain] at hfollow
  obtain ⟨dir, hdir, hdirectory, -⟩ := follow_append_piece hfollow
  have hfound : t.follow [] (Path.pieces ⟨front ++ "/" ++ slashes n ++ last⟩) = .ok (place ⟨front ++ "/" ++ last⟩) := by
    rw [hpieces, follow_append _ hdir, follow_slashes hdirectory, ← follow_append _ hdir, hfollow]
  have htaken : pieces ⟨front ++ "/" ++ slashes n ++ last⟩ = .ok (Path.pieces ⟨front ++ "/" ++ slashes n ++ last⟩) := by
    have hnul := nul_notMem_of_read h
    have hempty : front ++ "/" ++ slashes n ++ last ≠ "" := fun heq => by
      have hlength := congrArg (fun s : String => s.toList.length) heq
      simp at hlength
    have hnul' : '\x00' ∉ (front ++ "/" ++ slashes n ++ last).toList := by
      simp only [String.toList_append, List.mem_append, toList_slashes, List.mem_replicate] at hnul ⊢
      rintro ((hfront | ⟨-, hslash⟩) | hmem)
      · exact hnul (.inl hfront)
      · cases hslash
      · exact hnul (.inr hmem)
    exact pieces_eq_ok_iff.2 ⟨hnul', hempty, hshort⟩
  rw [read_eq_ok, at?, locate, htaken]
  dsimp only
  rw [hfound]
  exact hnode

end Slashes

namespace Bundle

/-- A path in a directory, with more slashes than it needs. -/
def slashed (n : Nat) : Path := ⟨"d" ++ "/" ++ slashes n ++ "b.js"⟩

/-- A record of a script that imports itself in another spelling, which can be read, but not with the name of a record
behind it. -/
def slashedRecord : Record := ⟨⟨"d/b.js"⟩, "", [slashed 4080]⟩

/-- The compiled files of the script. -/
def slashedTree : FileTree :=
  ⟨[(["b"], .directory), (["b", "d"], .directory), (["b", "d", "b.js"], .file []),
    (["b", "d", "b.js.meta.cbor"], .file slashedRecord.encode)], [], []⟩

theorem read_slashedTree : slashedTree.read ⟨"b/d" ++ "/" ++ "b.js"⟩ = .ok [] :=
  FileTree.eq_of_toOption (by decide)

theorem locate_slashedTree :
    slashedTree.locate (Path.join ⟨"b"⟩ (Record.pathFor ⟨"d/b.js"⟩)) = .ok ["b", "d", "b.js.meta.cbor"] :=
  FileTree.eq_of_toOption (by decide)

theorem resolve_slashedTree : resolve slashedTree ⟨"b"⟩ ⟨""⟩ "./d/b" = .ok ⟨"d/b.js"⟩ :=
  FileTree.eq_of_toOption (by decide)

theorem pieces_slashed (n : Nat) : (slashed n).pieces = "d" :: (List.replicate n "" ++ ["b.js"]) := by
  have hends : Path.pieces ⟨"d"⟩ = ["d"] ∧ Path.pieces ⟨"b.js"⟩ = ["b.js"] := by decide
  rw [slashed, Path.pieces_slashes, hends.1, hends.2]
  rfl

theorem length_slashed (n : Nat) : (slashed n).text.toList.length = n + 6 := by
  simp only [slashed, String.toList_append, toList_slashes, List.length_append, List.length_replicate]
  have hends : "d".toList.length = 1 ∧ "/".toList.length = 1 ∧ "b.js".toList.length = 4 := by decide
  omega

theorem isAbsolute_slashed (n : Nat) : (slashed n).isAbsolute = false := by simp [slashed, Path.isAbsolute]

theorem same_slashed (n : Nat) : (slashed n).Same ⟨"d/b.js"⟩ := by
  have hnone : (List.replicate n "").filterMap Path.Component.ofPiece = [] := by
    rw [List.filterMap_eq_nil_iff]
    exact fun piece hpiece => List.eq_of_mem_replicate hpiece ▸ rfl
  rw [Path.Same, Path.components, pieces_slashed]
  dsimp only
  rw [isAbsolute_slashed, List.filterMap_append, hnone]
  decide

theorem join_slashed (n : Nat) : Path.join ⟨"b"⟩ (slashed n) = ⟨"b/d" ++ "/" ++ slashes n ++ "b.js"⟩ := by
  have hparts : "b" ++ "/" ++ "d" = "b/d" := rfl
  rw [Path.join, isAbsolute_slashed, if_neg Bool.false_ne_true, if_neg (by decide), slashed, ← hparts]
  simp only [String.append_assoc]

theorem isFile_slashed : slashedTree.isFile (Path.join ⟨"b"⟩ (slashed 4080)) = true := by
  have hshort : ("b/d" ++ "/" ++ slashes 4080 ++ "b.js").utf8ByteSize ≤ FileTree.maxPath := by
    rw [String.utf8ByteSize_append, String.utf8ByteSize_append, utf8ByteSize_slashes]
    decide
  rw [join_slashed]
  exact FileTree.isFile_of_read (FileTree.read_slashes (by decide) 4080 hshort read_slashedTree)

/-- No record can be read beside the long spelling. -/
theorem require_slashed (r : Record) :
    Record.require slashedTree (Path.join ⟨"b"⟩ (Record.pathFor (slashed 4080))) ≠ .ok r := by
  intro h
  obtain ⟨content, hread, -⟩ := Record.read_of_require h
  obtain ⟨htaken, -, -⟩ := FileTree.at?_eq_some.1 (FileTree.read_eq_ok.1 hread)
  have hlong : FileTree.maxPath < (Path.join ⟨"b"⟩ (Record.pathFor (slashed 4080))).text.utf8ByteSize := by
    rw [Record.join_pathFor, join_slashed]
    simp only [String.utf8ByteSize_append, utf8ByteSize_slashes]
    decide
  exact Nat.not_lt.2 (FileTree.pieces_eq_ok_iff.1 htaken).2.2 hlong

theorem require_slashedTree :
    Record.require slashedTree (Path.join ⟨"b"⟩ (Record.pathFor ⟨"d/b.js"⟩)) = .ok slashedRecord := by
  have hread : slashedTree.read (Path.join ⟨"b"⟩ (Record.pathFor ⟨"d/b.js"⟩)) = .ok slashedRecord.encode := by
    rw [FileTree.read, locate_slashedTree]
    rfl
  have hfits : slashedRecord.Fits := by
    refine ⟨by decide, by decide, by decide, fun i hi => ?_⟩
    rw [List.mem_singleton.1 hi]
    have hcount := length_slashed 4080
    have hlength := Utf8.length_encode_le (slashed 4080).text
    have hword : 4 * 4086 < Cbor.wordCount := by decide
    omega
  have hdecode := Record.decode_encode hfits []
  rw [List.append_nil] at hdecode
  exact Record.require_of_read hread hdecode

/-- A script is found that imports nothing but itself, however it spells its own path. -/
theorem find_of_alias {specifier : String} {m i : Path} (hresolve : resolve t root ⟨""⟩ specifier = .ok m)
    (hrecord : Record.require t (root.join (Record.pathFor m)) = .ok r) (himports : r.imports = [i]) (hsame : i.Same m)
    (hfile : t.isFile (root.join i) = true) : ∃ b, find t root [specifier] = .ok b := by
  have hfound {p : Path} (h : p.Same m) : Sorted.find? Path.compare p [(m, r)] = some r := by
    rw [Sorted.find?, if_pos (Path.compare_eq_iff.2 h)]
  have hadd : Search.add t root ⟨[], []⟩ m = .ok ⟨[(m, r)], [m]⟩ := by
    rw [Search.add, Sorted.find?]
    dsimp only
    rw [hrecord]
    rfl
  have hbegin : Search.addEntrypoints t root (keepFirst [specifier]) ⟨[], []⟩ =
      .ok ([⟨specifier, m⟩], ⟨[(m, r)], [m]⟩) := by
    rw [show keepFirst [specifier] = [specifier] from rfl, Search.addEntrypoints_cons, hresolve]
    dsimp only
    rw [hadd]
    dsimp only
    rw [Search.addEntrypoints_nil]
  have hfollow : Search.follow t root 1 ⟨[(m, r)], [m]⟩ = .ok ⟨[(m, r)], []⟩ := by
    have hagain : Search.add t root ⟨[(m, r)], []⟩ i = .ok ⟨[(m, r)], []⟩ := by
      rw [Search.add, hfound hsame]
    rw [Search.follow]
    dsimp only
    rw [hfound rfl, Option.map_some, Option.getD_some, himports, Search.addImports, if_pos hfile, hagain]
    rfl
  exact ⟨_, find_of_done hbegin hfollow rfl (Nat.le_add_left 1 1)⟩

/-- A bundle is found although the record of a path that is reached cannot be read: it was read for another spelling. -/
theorem find_slashed : (∃ b, find slashedTree ⟨"b"⟩ ["./d/b"] = .ok b) ∧ ¬ Linkable slashedTree ⟨"b"⟩ ["./d/b"] := by
  refine ⟨find_of_alias resolve_slashedTree require_slashedTree rfl (same_slashed 4080) isFile_slashed,
    fun hlinkable => ?_⟩
  obtain ⟨r, hr⟩ := hlinkable.recorded (slashed 4080)
    ⟨_, List.mem_singleton_self _, _, resolve_slashedTree,
      .single ⟨slashedRecord, require_slashedTree, List.mem_singleton_self _⟩⟩
  exact require_slashed r hr

end Bundle
end Bundler
