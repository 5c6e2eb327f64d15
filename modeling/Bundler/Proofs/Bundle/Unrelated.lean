import Bundler.Proofs.Bundle.AnyOrder
import Bundler.Proofs.Bundle.Listed
/-!
# Chunks that other changes leave alone

What an entrypoint's chunk is called and what it holds depends on what its module leads to and on nothing else: two
build roots that agree on that (`Agree`) give it the same chunk, whatever else is in them or is asked for
(`chunk_of_agree`). The members of the chunk are known by chains of imports (`mem_wholeChunk_iff`), and these are the
same in both. Some things get in the way where they are not ruled out: the spelling of a path that something else met
first, and a file that is written over a module or over the chunk (`chunk_disturbed`).
-/

namespace Bundler

open Relation (ReflTransGen)
open FileTree

variable {t t' u u' : FileTree} {root root' dir dir' p m : Path} {specifiers specifiers' : List String} {b b' : Bundle}
  {e : Entrypoint} {specifier : String} {manifest manifest' : Manifest} {c : Chunk} {chunks : List Chunk}

namespace Bundle

/-! ## The members of a chunk -/

namespace Followed

variable {s : Search} {f : Path × BundleFile} (hs : Followed t root specifiers b s)
  (hneat : ∀ f ∈ b.files, ∀ i ∈ f.2.record.imports, i.Neat)
include hs hneat

/-- What a chain of imports leads to is a file of the bundle, spelled as it is imported. -/
theorem exists_file (he : e ∈ b.entrypoints) (hchain : ReflTransGen (ImportsAs t root) e.module p) :
    ∃ f ∈ b.files, f.1 = p := by
  induction hchain with
  | refl =>
    obtain ⟨f, hf, hpath, -⟩ := hs.module_mem he
    exact ⟨f, hf, hpath⟩
  | tail _ hstep ih =>
    obtain ⟨f, hf, rfl⟩ := ih
    obtain ⟨r, hr, hi⟩ := hstep
    obtain rfl : r = f.2.record := Except.ok.inj (hr.symm.trans (hs.valid.record (f.1, f.2.record) (hs.of_mem hf)))
    obtain ⟨g, hg, hpath, -⟩ := hs.import_mem hneat hf hi
    exact ⟨g, hg, hpath⟩

/-- The records that were found list chains of imports. -/
theorem chain_of_lists (he : e ∈ b.entrypoints) (hchain : ReflTransGen (Lists s.records) e.module p) :
    ReflTransGen (ImportsAs t root) e.module p := by
  induction hchain with
  | refl => exact .refl
  | tail _ hstep ih =>
    obtain ⟨f, hf, rfl⟩ := hs.exists_file hneat he ih
    rw [Lists, importsOf_of_mem hs.valid.ascending (hs.of_mem hf) rfl] at hstep
    exact ih.tail ⟨f.2.record, hs.valid.record (f.1, f.2.record) (hs.of_mem hf), hstep⟩

theorem leads_iff (he : e ∈ b.entrypoints) (hf : f ∈ b.files) :
    Leads t root e.module f.1 ↔ ReflTransGen (ImportsAs t root) e.module f.1 := by
  constructor
  · rintro ⟨q, hchain, hsame⟩
    obtain ⟨-, p, hlists, hp⟩ := hs.valid.lists_of_imports hs.done (hs.starts e he) hchain
    have hchain := hs.chain_of_lists hneat he hlists
    obtain ⟨g, hg, rfl⟩ := hs.exists_file hneat he hchain
    rwa [(hs.neat hneat hg).eq_of_same (hs.neat hneat hf) (hp.trans hsame)] at hchain
  · exact fun hchain => ⟨f.1, hchain.lift id fun _ _ => imports_of_importsAs, rfl⟩

end Followed

section Members

variable (hfind : find t root specifiers = .ok b) (hneat : ∀ f ∈ b.files, ∀ i ∈ f.2.record.imports, i.Neat)
  (he : e ∈ b.entrypoints)
include hfind hneat he

/-- The members of an entrypoint's chunk are what chains of imports lead to from its module. -/
theorem mem_wholeChunk_iff {member : Path × String} : member ∈ (Chunker.wholeChunk b.files e).files ↔
    ReflTransGen (ImportsAs t root) e.module member.1 ∧
      ∃ r, Record.require t (root.join (Record.pathFor member.1)) = .ok r ∧ member.2 = r.hash := by
  obtain ⟨s, hs⟩ := exists_followed hfind
  rw [Chunker.mem_whole_iff (exact_of_find hfind) he]
  constructor
  · rintro ⟨f, hf, rfl, hleads⟩
    exact ⟨(hs.leads_iff hneat he hf).1 hleads, f.2.record, find_record hfind hf, rfl⟩
  · rintro ⟨hchain, r, hr, hhash⟩
    obtain ⟨f, hf, hpath⟩ := hs.exists_file hneat he hchain
    rw [← hpath, find_record hfind hf, Except.ok.injEq] at hr
    rw [← hpath] at hchain
    exact ⟨f, hf, Prod.ext hpath.symm (hr ▸ hhash), (hs.leads_iff hneat he hf).2 hchain⟩

theorem require_of_chain (hchain : ReflTransGen (ImportsAs t root) e.module p) :
    ∃ r, Record.require t (root.join (Record.pathFor p)) = .ok r := by
  obtain ⟨s, hs⟩ := exists_followed hfind
  obtain ⟨f, hf, rfl⟩ := hs.exists_file hneat he hchain
  exact ⟨f.2.record, find_record hfind hf⟩

end Members

theorem ascending_wholeChunk (hfind : find t root specifiers = .ok b) (e : Entrypoint) :
    (Chunker.wholeChunk b.files e).files.Pairwise fun x y => Path.compare x.1 y.1 = .lt := by
  obtain ⟨s, hs⟩ := exists_followed hfind
  rw [Chunker.wholeChunk, Chunker.members, List.pairwise_map]
  exact (List.pairwise_map.1 hs.ascending).filter _

/-! ## Two build roots -/

/-- Two build roots agree on what a module leads to: the records that both have say the same of a file, and so do the
compiled files. -/
structure Agree (t : FileTree) (root : Path) (t' : FileTree) (root' m : Path) : Prop where
  record : ∀ p r r', ReflTransGen (ImportsAs t root) m p → Record.require t (root.join (Record.pathFor p)) = .ok r →
    Record.require t' (root'.join (Record.pathFor p)) = .ok r' → r.hash = r'.hash ∧ r.imports = r'.imports
  text : ∀ p source source', ReflTransGen (ImportsAs t root) m p → t.read (root.join p) = .ok source →
    t'.read (root'.join p) = .ok source' → source = source'

theorem Agree.refl (t : FileTree) (root m : Path) : Agree t root t root m where
  record _ _ _ _ hr hr' := Except.ok.inj (hr.symm.trans hr') ▸ ⟨rfl, rfl⟩
  text _ _ _ _ hread hread' := Except.ok.inj (hread.symm.trans hread')

/-- The module leads to the same paths in both. -/
theorem Agree.chain_iff (h : Agree t root t' root' m)
    (hrecords : ∀ p, ReflTransGen (ImportsAs t root) m p → ∃ r, Record.require t (root.join (Record.pathFor p)) = .ok r)
    (hrecords' : ∀ p, ReflTransGen (ImportsAs t' root') m p →
      ∃ r, Record.require t' (root'.join (Record.pathFor p)) = .ok r) :
    ReflTransGen (ImportsAs t root) m p ↔ ReflTransGen (ImportsAs t' root') m p := by
  constructor
  · intro hchain
    induction hchain with
    | refl => exact .refl
    | tail hchain hstep ih =>
      obtain ⟨r, hr, hi⟩ := hstep
      obtain ⟨r', hr'⟩ := hrecords' _ ih
      exact ih.tail ⟨r', hr', (h.record _ r r' hchain hr hr').2 ▸ hi⟩
  · intro hchain
    induction hchain with
    | refl => exact .refl
    | tail _ hstep ih =>
      obtain ⟨r', hr', hi⟩ := hstep
      obtain ⟨r, hr⟩ := hrecords _ ih
      exact ih.tail ⟨r, hr, (h.record _ r r' ih hr hr').2 ▸ hi⟩

section Two

variable (hagree : Agree t root t' root' e.module) (hfind : find t root specifiers = .ok b)
  (hfind' : find t' root' specifiers' = .ok b') (hneat : ∀ f ∈ b.files, ∀ i ∈ f.2.record.imports, i.Neat)
  (hneat' : ∀ f ∈ b'.files, ∀ i ∈ f.2.record.imports, i.Neat) (he : e ∈ b.entrypoints) (he' : e ∈ b'.entrypoints)
include hagree hfind hfind' hneat hneat' he he'

/-- The entrypoint has the same chunk in both. -/
theorem wholeChunk_of_agree : Chunker.wholeChunk b.files e = Chunker.wholeChunk b'.files e := by
  have hchain {p : Path} := hagree.chain_iff (p := p) (fun _ => require_of_chain hfind hneat he)
    fun _ => require_of_chain hfind' hneat' he'
  have hfiles : (Chunker.wholeChunk b.files e).files = (Chunker.wholeChunk b'.files e).files := by
    refine Sorted.eq_of_pairwise_lt Prod.fst (ascending_wholeChunk hfind e) (ascending_wholeChunk hfind' e)
      fun member => ?_
    rw [mem_wholeChunk_iff hfind hneat he, mem_wholeChunk_iff hfind' hneat' he', ← hchain]
    refine and_congr_right fun hreached => ?_
    obtain ⟨r, hr⟩ := require_of_chain hfind hneat he hreached
    obtain ⟨r', hr'⟩ := require_of_chain hfind' hneat' he' (hchain.1 hreached)
    obtain ⟨hhash, -⟩ := hagree.record _ r r' hreached hr hr'
    rw [hr, hr']
    simp only [Except.ok.injEq, exists_eq_left', hhash]
  exact congrArg (fun files => (⟨some e, files, []⟩ : Chunk)) hfiles

end Two

/-- The manifest has an entry for each entrypoint, with its chunk. -/
theorem get?_of_find {chunker : Chunker} (hfind : find t root specifiers = .ok b)
    (hc : c ∈ chunker.chunks b.entrypoints b.files) (hstart : c.entrypoint = some e) :
    (Manifest.ofChunks (chunker.chunks b.entrypoints b.files)).get? e.specifier = some ⟨c.fileName, c.loads⟩ :=
  Manifest.get?_of_mem ((Manifest.mem_ofChunks (Chunker.nodup_starts hfind chunker)).2 ⟨c, hc, e, hstart, rfl⟩)

/-- A bundle is found for some specifiers and written, with a chunk for each entrypoint, and this is the manifest that
is saved. The chunks may be written beside each other in any way. -/
def Linked (t : FileTree) (root dir : Path) (specifiers : List String) (b : Bundle) (u : FileTree)
    (manifest : Manifest) : Prop :=
  find t root specifiers = .ok b ∧ Publishes root dir (Chunker.perEntrypoint.chunks b.entrypoints b.files) t u ∧
    manifest = Manifest.ofChunks (Chunker.perEntrypoint.chunks b.entrypoints b.files)

theorem linked_of_write (hfind : find t root specifiers = .ok b)
    (hwrite : write root dir (Chunker.perEntrypoint.chunks b.entrypoints b.files) t = (u, .ok manifest)) :
    Linked t root dir specifiers b u manifest := by
  obtain ⟨hmanifest, hpublishes⟩ := publishes_of_write hwrite
  exact ⟨hfind, hpublishes, hmanifest⟩

/-- Compiled files in a directory, and an empty directory for bundles. -/
def compiledFiles (root dir : String) (records : Records) : FileTree :=
  let compiled := records.flatMap fun (path, record) =>
    [([root, path.text], .file []), ([root, (Record.pathFor path).text], .file record.encode)]
  ⟨([root], .directory) :: ([dir], .directory) :: compiled, [], []⟩

/-- The names of a bundle's files are not too long and are not taken by directories, and what goes into the files can
be read. -/
def Writable (t : FileTree) (root dir : Path) (names : List String) (chunks : List Chunk) : Prop :=
  t.isDirectory dir = true ∧
    (∀ name ∈ Manifest.fileName.text :: names, '\x00' ∉ name.toList ∧ name.utf8ByteSize ≤ maxName ∧
      dir.text.utf8ByteSize + name.utf8ByteSize < maxPath ∧ t.node? (place dir ++ [name]) ≠ some .directory) ∧
    ∀ c ∈ chunks, ∀ m ∈ c.files, (t.read (root.join m.1)).toOption.isSome

/-- No file of a bundle takes the place of a module. -/
def Aside (root dir : Path) (names : List String) (chunks : List Chunk) : Prop :=
  ∀ c ∈ chunks, ∀ m ∈ c.files, ∀ name ∈ names, place dir ++ [name] ≠ place (root.join m.1)

instance (t : FileTree) (root dir : Path) (names : List String) (chunks : List Chunk) :
    Decidable (Writable t root dir names chunks) :=
  inferInstanceAs (Decidable (_ ∧ _))

instance (root dir : Path) (names : List String) (chunks : List Chunk) : Decidable (Aside root dir names chunks) :=
  inferInstanceAs (Decidable (∀ _ ∈ _, _))

section Evaluated

variable {names : List String} (hlinks : t.links = []) (hnames : chunks.map Chunk.fileName = names)

section Writable

variable (h : Writable t root dir names chunks)
include h

/-- What is to be written into the directory can be opened. -/
theorem Writable.exists_open {name : String} (hname : IsName name) (hslash : '/' ∉ name.toList)
    (hmem : name ∈ Manifest.fileName.text :: names) : ∃ u, t.write (dir.join ⟨name⟩) [] = .ok u := by
  obtain ⟨hdir, hfree, -⟩ := h
  obtain ⟨hnul, hshort, hlong, hnode⟩ := hfree name hmem
  exact exists_write_name hname hslash hnul hshort hlong hdir hnode []

theorem Writable.exists_manifest : ∃ u, t.write (dir.join Manifest.fileName) [] = .ok u :=
  h.exists_open (isName_of_length (by decide)) (by decide) List.mem_cons_self

include hnames in
theorem Writable.exists_chunk (hc : c ∈ chunks) : ∃ u, t.write (dir.join ⟨c.fileName⟩) [] = .ok u :=
  h.exists_open c.isName_fileName c.slash_notMem_fileName
    (List.mem_cons_of_mem _ (hnames ▸ List.mem_map_of_mem hc))

theorem Writable.exists_module (hc : c ∈ chunks) :
    ∀ m ∈ c.files, ∃ source, t.read (root.join m.1) = .ok source := by
  intro m hm
  obtain ⟨source, hsource⟩ := Option.isSome_iff_exists.1 (h.2.2 c hc m hm)
  exact ⟨source, eq_of_toOption hsource⟩

end Writable

include hlinks hnames

/-- A bundle is written into a directory where its names are not too long and no directories, and no file has two
names. -/
theorem Writable.exists_write (h : Writable t root dir names chunks) :
    ∃ u, write root dir chunks t = (u, .ok (Manifest.ofChunks chunks)) := by
  refine Bundle.exists_write (fun c hc => h.exists_chunk hnames hc) (fun c hc => h.exists_module hc) ?_
    (makeDirectories_of_isDirectory h.1) h.exists_manifest
  intro group hgroup
  rw [hlinks] at hgroup
  cases hgroup

theorem Aside.clear (h : Aside root dir names chunks) (hnodup : names.Nodup) (hc : c ∈ chunks) :
    Clear root dir chunks t c := by
  have hlone {P : List Location → Prop} : ∀ group ∈ t.links, P group := by
    rw [hlinks]
    exact fun _ hgroup => absurd hgroup List.not_mem_nil
  refine clear_of_single hlone (fun _ _ => hlone) (fun c hc c' hc' heq => ?_) (fun m hm c' hc' => ?_) hc
  · obtain rfl := List.inj_on_of_nodup_map (hnames ▸ hnodup) hc hc' heq
    exact ⟨rfl, rfl, rfl⟩
  · rw [Chunk.place_fileName]
    exact h c hc m hm _ (hnames ▸ List.mem_map_of_mem hc')

end Evaluated

/-- Two roots agree on what a module leads to if they agree on some scripts that import only each other. -/
theorem Agree.of_records (records : Records) (hm : m ∈ records.map Prod.fst)
    (hclosed : ∀ f ∈ records, ∀ i ∈ f.2.imports, i ∈ records.map Prod.fst)
    (hrecords : ∀ f ∈ records, Record.require t (root.join (Record.pathFor f.1)) = .ok f.2 ∧
      Record.require t' (root'.join (Record.pathFor f.1)) = .ok f.2)
    (htexts : ∀ f ∈ records, t.read (root.join f.1) = t'.read (root'.join f.1)) : Agree t root t' root' m := by
  have hreached {p : Path} (hchain : ReflTransGen (ImportsAs t root) m p) : ∃ f ∈ records, f.1 = p := by
    refine List.mem_map.1 ?_
    induction hchain with
    | refl => exact hm
    | tail _ hstep ih =>
      obtain ⟨f, hf, rfl⟩ := List.mem_map.1 ih
      obtain ⟨r, hr, hi⟩ := hstep
      rw [(hrecords f hf).1, Except.ok.injEq] at hr
      exact hclosed f hf _ (hr ▸ hi)
  constructor
  · intro p r r' hchain hr hr'
    obtain ⟨f, hf, rfl⟩ := hreached hchain
    obtain ⟨hrecord, hrecord'⟩ := hrecords f hf
    cases Except.ok.inj (hrecord.symm.trans hr)
    cases Except.ok.inj (hrecord'.symm.trans hr')
    exact ⟨rfl, rfl⟩
  · intro p source source' hchain hread hread'
    obtain ⟨f, hf, rfl⟩ := hreached hchain
    rw [htexts f hf, hread', Except.ok.injEq] at hread
    exact hread.symm

/-- The rings, to be linked into a directory. -/
def ringTree : FileTree := compiledFiles "b" "d" ringRecords

/-- One of the rings with a script that imports it. -/
def widerRecords : Records := (⟨"n.js"⟩, ⟨⟨"n.js"⟩, "", [⟨"x.js"⟩]⟩) :: ringRecords.take 2

/-- The ring in another root. -/
def widerTree : FileTree := compiledFiles "w" "e" widerRecords

/-- The entrypoint of the ring. -/
def ringEntry : Entrypoint := ⟨"./x", ⟨"x.js"⟩⟩

/-- The entrypoint that leads to the ring. -/
def widerEntry : Entrypoint := ⟨"./n.js", ⟨"n.js"⟩⟩

/-- The bundle of the ring. -/
def loneBundle : Bundle := ⟨⟨"b"⟩, [ringEntry], markFiles (ringRecords.take 2) [ringEntry]⟩

/-- The bundle of the ring in the other root. -/
def widerBundle : Bundle := ⟨⟨"w"⟩, [widerEntry, ringEntry], markFiles widerRecords [widerEntry, ringEntry]⟩

/-- The ring in a chunk of its own. -/
def ringChunk : Chunk := ⟨some ringEntry, [(⟨"x.js"⟩, ""), (⟨"y.js"⟩, "")], []⟩

/-- The ring in the chunk of the script that imports it. -/
def widerChunk : Chunk := ⟨some widerEntry, [(⟨"n.js"⟩, ""), (⟨"x.js"⟩, ""), (⟨"y.js"⟩, "")], []⟩

/-- The names of the two chunks. -/
def ringNames : List String :=
  ["n.5862ceeb89da6a891084c401c7e9fcae22d4d960ee66859002e8052eb10a3bec.js",
    "x.30b7f71bf7e6f68fcd3eeb5053ee383ed1c89d57cf44027b8bf87f7446acd20b.js"]

theorem fileName_rings : [widerChunk, ringChunk].map Chunk.fileName = ringNames := by decide +kernel

theorem chunks_rings :
    Chunker.perEntrypoint.chunks loneBundle.entrypoints loneBundle.files = [ringChunk] ∧
      Chunker.perEntrypoint.chunks widerBundle.entrypoints widerBundle.files = [widerChunk, ringChunk] := by
  decide

theorem found_ringTrees : (find ringTree ⟨"b"⟩ ["./x"]).toOption = some loneBundle ∧
    (find widerTree ⟨"w"⟩ ["./n.js", "./x"]).toOption = some widerBundle := by decide

theorem resolve_ringTree : (resolve ringTree ⟨"b"⟩ ⟨""⟩ "./x").toOption = some ⟨"x.js"⟩ ∧
    (resolve widerTree ⟨"w"⟩ ⟨""⟩ "./x").toOption = some ⟨"x.js"⟩ := by decide

theorem compiled_rings : ∀ f ∈ ringRecords.take 2,
    (Record.require ringTree (Path.join ⟨"b"⟩ (Record.pathFor f.1))).toOption = some f.2 ∧
      (Record.require widerTree (Path.join ⟨"w"⟩ (Record.pathFor f.1))).toOption = some f.2 ∧
      (ringTree.read (Path.join ⟨"b"⟩ f.1)).toOption = some [] ∧
      (widerTree.read (Path.join ⟨"w"⟩ f.1)).toOption = some [] := by decide

theorem normalize_rings : (∀ f ∈ loneBundle.files, ∀ i ∈ f.2.record.imports, i.normalize = i) ∧
    ∀ f ∈ widerBundle.files, ∀ i ∈ f.2.record.imports, i.normalize = i := by decide

theorem writable_rings :
    (Writable ringTree ⟨"b"⟩ ⟨"d"⟩ (ringNames.drop 1) [ringChunk] ∧
      Aside ⟨"b"⟩ ⟨"d"⟩ (ringNames.drop 1) [ringChunk]) ∧
    Writable widerTree ⟨"w"⟩ ⟨"e"⟩ ringNames [widerChunk, ringChunk] ∧
      Aside ⟨"w"⟩ ⟨"e"⟩ ringNames [widerChunk, ringChunk] := by decide

theorem agree_ringTree : Agree ringTree ⟨"b"⟩ widerTree ⟨"w"⟩ ⟨"x.js"⟩ := by
  refine Agree.of_records (ringRecords.take 2) (by decide) (by decide) (fun f hf => ?_) fun f hf => ?_
  · obtain ⟨hrecord, hrecord', -⟩ := compiled_rings f hf
    exact ⟨eq_of_toOption hrecord, eq_of_toOption hrecord'⟩
  · obtain ⟨-, -, htext, htext'⟩ := compiled_rings f hf
    rw [eq_of_toOption htext, eq_of_toOption htext']

theorem neat_rings_wider : (∀ f ∈ loneBundle.files, ∀ i ∈ f.2.record.imports, i.Neat) ∧
    ∀ f ∈ widerBundle.files, ∀ i ∈ f.2.record.imports, i.Neat :=
  ⟨fun f hf i hi => Path.neat_of_normalize (normalize_rings.1 f hf i hi),
    fun f hf i hi => Path.neat_of_normalize (normalize_rings.2 f hf i hi)⟩

/-- What is found for some specifiers, as the chunks of the entrypoints. -/
def foundChunks (t : FileTree) (root : Path) (specifiers : List String) : Option (List Chunk) :=
  (find t root specifiers).toOption.map fun b => Chunker.perEntrypoint.chunks b.entrypoints b.files

section Found

variable (hfound : foundChunks t root specifiers = some chunks)
include hfound

theorem exists_find :
    ∃ b, find t root specifiers = .ok b ∧ Chunker.perEntrypoint.chunks b.entrypoints b.files = chunks := by
  obtain ⟨b, hb, hchunks⟩ := Option.map_eq_some_iff.1 hfound
  exact ⟨b, eq_of_toOption hb, hchunks⟩

theorem linked_of_found (hpublishes : Publishes root dir chunks t u) :
    ∃ b, Linked t root dir specifiers b u (Manifest.ofChunks chunks) ∧
      ∀ c ∈ chunks, ∀ e, c.entrypoint = some e → e ∈ b.entrypoints := by
  obtain ⟨b, hfind, rfl⟩ := exists_find hfound
  exact ⟨b, ⟨hfind, hpublishes, rfl⟩, fun c hc e he => (Chunker.drawn_of_mem hc).start e he⟩

theorem records_of_found (hc : c ∈ chunks) :
    ∀ m ∈ c.files, ∃ bytes, t.read (root.join (Record.pathFor m.1)) = .ok bytes := by
  obtain ⟨b, hfind, rfl⟩ := exists_find hfound
  exact read_records hfind hc

theorem nodup_of_found : ∀ c ∈ chunks, (c.files.map Prod.fst).Nodup := by
  obtain ⟨b, hfind, rfl⟩ := exists_find hfound
  exact Chunker.nodup_modules hfind .perEntrypoint

theorem get?_of_found (hc : c ∈ chunks) (hstart : c.entrypoint = some e) :
    (Manifest.ofChunks chunks).get? e.specifier = some ⟨c.fileName, c.loads⟩ := by
  obtain ⟨b, hfind, rfl⟩ := exists_find hfound
  exact get?_of_find hfind hc hstart

end Found

section Shared

variable (hw : t.WellLinked)
include hw

/-- A chunk whose file is that of its module as well finds the module empty. -/
theorem read_of_own_module (hp : p ∈ c.files.map Prod.fst)
    (hshared : place (root.join p) ∈ t.names (place (dir.join ⟨c.fileName⟩)))
    (hmanifest : place (dir.join ⟨c.fileName⟩) ∉ t.names (place (dir.join Manifest.fileName)))
    (hwrite : write root dir [c] t = (u, .ok manifest)) :
    ∃ text, u.read (dir.join ⟨c.fileName⟩) = .ok (chunkContent c text) ∧ text p = [] := by
  obtain ⟨ready, full, text, ⟨hready, -⟩, ⟨hfull, hlinks⟩, hempty, hread, hfill, hsave⟩ :=
    parts_of_write_singleton hw hwrite
  refine ⟨text, ?_, ?_⟩
  · rw [(sameBut_names hfull hsave).read_iff (names_congr hlinks _ ▸ hmanifest)]
    exact read_of_write hready hfill
  · obtain ⟨m, hm, rfl⟩ := List.mem_map.1 hp
    have hnode := (node?_of_read (hread m hm)).symm.trans (hempty _ hshared)
    exact Node.file.inj (Option.some.inj hnode)

/-- A chunk whose file is that of the manifest as well is lost. -/
theorem read_of_own_manifest (hshared : place (dir.join ⟨c.fileName⟩) ∈ t.names (place (dir.join Manifest.fileName)))
    (hwrite : write root dir [c] t = (u, .ok manifest)) :
    u.read (dir.join ⟨c.fileName⟩) = .ok (Utf8.encode manifest.toJson) := by
  obtain ⟨ready, full, text, ⟨hready, -⟩, ⟨hfull, hlinks⟩, -, -, hfill, hsave⟩ := parts_of_write_singleton hw hwrite
  obtain ⟨content, hread⟩ := (sameBut_names hfull hsave).exists_read (read_of_write hready hfill)
  have hnode := node?_write_of_mem_names hfull hsave (names_congr hlinks _ ▸ hshared)
  rw [hread, Node.file.inj (Option.some.inj ((node?_of_read hread).symm.trans hnode))]

variable {first : Chunk} {v written : FileTree}

/-- A chunk that was written over a module is what the next chunk has in the module's place. -/
theorem read_of_overwritten (hplace : root.join p = dir.join ⟨first.fileName⟩)
    (hother : place (dir.join ⟨first.fileName⟩) ∉ t.names (place (dir.join ⟨c.fileName⟩)))
    (hmanifest : place (dir.join ⟨c.fileName⟩) ∉ t.names (place (dir.join Manifest.fileName)))
    (hfirst : writeChunks root dir [first] t = (v, .ok ())) (hsecond : writeChunks root dir [c] v = (written, .ok ()))
    (hsave : manifest.save written (dir.join Manifest.fileName) = .ok u) :
    ∃ text text', u.read (dir.join ⟨c.fileName⟩) = .ok (chunkContent c text) ∧ text p = chunkContent first text' := by
  obtain ⟨ready, hempty, -, hfill⟩ := writeChunks_singleton_iff.1 hfirst
  obtain ⟨ready', hempty', -, hfill'⟩ := writeChunks_singleton_iff.1 hsecond
  have hready := wellLinked_write hw hempty
  have hv := wellLinked_write hready hfill
  have hready' := wellLinked_write hv hempty'
  have hlinks : v.links = t.links := (links_write hfill).trans (links_write hempty)
  have hlinks' : written.links = t.links := (links_write hfill').trans ((links_write hempty').trans hlinks)
  have hsaved := sameBut_names (wellLinked_write hready' hfill') (Manifest.write_of_save hsave)
  refine ⟨Script.compiledText ready' root, Script.compiledText ready root, ?_, ?_⟩
  · rw [hsaved.read_iff (names_congr hlinks' _ ▸ hmanifest)]
    exact read_of_write hready' hfill'
  · refine Script.compiledText_of_read ?_
    rw [hplace, (sameBut_names hv hempty').read_iff (names_congr hlinks _ ▸ hother)]
    exact read_of_write hready hfill

/-- Two chunks can be written one after the other where each can be written by itself. -/
theorem exists_in_turn (hopen : ∀ c' ∈ [first, c], ∃ v, t.write (dir.join ⟨c'.fileName⟩) [] = .ok v)
    (hread : ∀ c' ∈ [first, c], ∀ m ∈ c'.files, ∃ source, t.read (root.join m.1) = .ok source)
    (hmanifest : ∃ v, t.write (dir.join Manifest.fileName) [] = .ok v) (manifest : Manifest) :
    ∃ v written u, writeChunks root dir [first] t = (v, .ok ()) ∧ writeChunks root dir [c] v = (written, .ok ()) ∧
      manifest.save written (dir.join Manifest.fileName) = .ok u := by
  rw [List.forall_mem_cons, List.forall_mem_singleton] at hopen hread
  obtain ⟨v, hfirst, hsame⟩ := exists_writeChunks (confined_affected hw) (List.forall_mem_singleton.2 hopen.1)
    (List.forall_mem_singleton.2 hread.1)
  obtain ⟨_, hown⟩ := hopen.2
  obtain ⟨written, hsecond, hsame'⟩ := exists_writeChunks (confined_affected (hsame.wellLinked hw))
    (List.forall_mem_singleton.2 (hsame.exists_write hown []))
    (List.forall_mem_singleton.2 fun m hm => (hread.2 m hm).elim fun _ hsource => hsame.exists_read hsource)
  obtain ⟨_, hlast⟩ := hmanifest
  obtain ⟨_, hagain⟩ := hsame.exists_write hlast []
  obtain ⟨u, hsave⟩ := hsame'.exists_write hagain (Utf8.encode manifest.toJson)
  exact ⟨v, written, u, hfirst, hsecond, by rw [Manifest.save, hsave]⟩

end Shared

/-- An entrypoint has files of one name that hold different things, though two trees agree on what it leads to. -/
def Disturbs (t t' : FileTree) (root dir : Path) (specifiers specifiers' : List String) (e : Entrypoint) : Prop :=
  ∃ b b' u u' manifest manifest' entry content content',
    (e ∈ b.entrypoints ∧ e ∈ b'.entrypoints ∧ Agree t root t' root e.module) ∧
    Linked t root dir specifiers b u manifest ∧ Linked t' root dir specifiers' b' u' manifest' ∧
    manifest.get? e.specifier = some entry ∧ manifest'.get? e.specifier = some entry ∧
    u.read (dir.join ⟨entry.file⟩) = .ok content ∧ u'.read (dir.join ⟨entry.file⟩) = .ok content' ∧ content ≠ content'

/-- A script that spells an import with a slash too many, and the script it imports. -/
def spelledTree : FileTree :=
  ⟨[(["b"], .directory), (["e"], .directory), (["b", "d"], .directory), (["b", "a.js"], .file []),
    (["b", "a.js.meta.cbor"], .file (Record.mk ⟨"a.js"⟩ "" [⟨"d//b.js"⟩]).encode), (["b", "d", "b.js"], .file []),
    (["b", "d", "b.js.meta.cbor"], .file (Record.mk ⟨"d/b.js"⟩ "" []).encode)], [], []⟩

/-- The chunk of the script, for a spelling of what it imports. -/
def spelledChunk (imported : Path) : Chunk := ⟨some ⟨"./a", ⟨"a.js"⟩⟩, [(⟨"a.js"⟩, ""), (imported, "")], []⟩

/-- The chunk of the script that is imported. -/
def importedChunk : Chunk := ⟨some ⟨"./d/b", ⟨"d/b.js"⟩⟩, [(⟨"d/b.js"⟩, "")], []⟩

/-- The names of the chunks. -/
def spelledNames : List String :=
  ["b.b7ea30612765c46bfa7452ef5f0db744d98467b20bd26e0b74568c4b4fcaf0f4.js",
    "a.8c2b1914f57b4f5f466311000872ee171109c81f0779743f684d061ad4e118b2.js"]

/-- The name of the chunk of the script when nothing else is linked. -/
def slashedName : String := "a.254cec96ba9bca61424a58bceaa70f87739158d1f064f2e921ca65411dc1bc8c.js"

theorem fileName_spelled : [spelledChunk ⟨"d//b.js"⟩].map Chunk.fileName = [slashedName] ∧
    [importedChunk, spelledChunk ⟨"d/b.js"⟩].map Chunk.fileName = spelledNames := by decide +kernel

theorem found_spelledTree :
    foundChunks spelledTree ⟨"b"⟩ ["./a"] = some [spelledChunk ⟨"d//b.js"⟩] ∧
      foundChunks spelledTree ⟨"b"⟩ ["./d/b", "./a"] = some [importedChunk, spelledChunk ⟨"d/b.js"⟩] := by
  decide

theorem writable_spelledTree :
    Writable spelledTree ⟨"b"⟩ ⟨"e"⟩ [slashedName] [spelledChunk ⟨"d//b.js"⟩] ∧
      Writable spelledTree ⟨"b"⟩ ⟨"e"⟩ spelledNames [importedChunk, spelledChunk ⟨"d/b.js"⟩] := by decide

/-- A second entrypoint changes the name of the chunk. -/
theorem renamed_spelledTree : ∃ b b' u u' manifest manifest', Linked spelledTree ⟨"b"⟩ ⟨"e"⟩ ["./a"] b u manifest ∧
    Linked spelledTree ⟨"b"⟩ ⟨"e"⟩ ["./d/b", "./a"] b' u' manifest' ∧ manifest.get? "./a" ≠ manifest'.get? "./a" := by
  obtain ⟨hnames, hnames'⟩ := fileName_spelled
  obtain ⟨hfound, hfound'⟩ := found_spelledTree
  obtain ⟨u, hwrite⟩ := writable_spelledTree.1.exists_write rfl hnames
  obtain ⟨u', hwrite'⟩ := writable_spelledTree.2.exists_write rfl hnames'
  obtain ⟨b, hlinked, -⟩ := linked_of_found hfound (publishes_of_write hwrite).2
  obtain ⟨b', hlinked', -⟩ := linked_of_found hfound' (publishes_of_write hwrite').2
  refine ⟨b, b', u, u', _, _, hlinked, hlinked', ?_⟩
  rw [get?_of_found hfound (.head _) rfl, get?_of_found hfound' (.tail _ (.head _)) rfl, (List.cons.inj hnames).1,
    (List.cons.inj (List.cons.inj hnames').2).1]
  decide

section Script

open Project (scriptEntry scriptHash scriptRecord chunkName chunkWith bundleWith recordWith firstScript linkScript)

/-- The file of the script's chunk is that of the compiled script. -/
def sharedModule : FileTree := firstScript.link ["w", "build", "src", "a.js"] ["w", "dist", chunkName]

/-- The file of the script's chunk is that of the manifest. -/
def sharedManifest : FileTree :=
  (firstScript.put ["w", "dist", "manifest.json"] (.file [])).link ["w", "dist", "manifest.json"]
    ["w", "dist", chunkName]

theorem linkable_sharedModule : Project.Linkable [] scriptHash chunkName sharedModule := by decide +kernel

theorem linkable_sharedManifest : Project.Linkable [0x78] scriptHash chunkName sharedManifest := by decide +kernel

theorem names_sharedModule : ["w", "build", "src", "a.js"] ∈ sharedModule.names ["w", "dist", chunkName] ∧
    ["w", "dist", chunkName] ∉ sharedModule.names ["w", "dist", "manifest.json"] := by decide

theorem names_sharedManifest : ["w", "dist", chunkName] ∈ sharedManifest.names ["w", "dist", "manifest.json"] := by
  decide

theorem wellLinked_sharedModule : sharedModule.WellLinked := by
  have hlinks : ∀ group ∈ sharedModule.links, ∀ l ∈ group, sharedModule.node? l = some (.file [0x78]) := by decide
  exact fun group hgroup l hl => ⟨_, hlinks group hgroup l hl⟩

theorem wellLinked_sharedManifest : sharedManifest.WellLinked := by
  have hlinks : ∀ group ∈ sharedManifest.links, ∀ l ∈ group, sharedManifest.node? l = some (.file []) := by decide
  exact fun group hgroup l hl => ⟨_, hlinks group hgroup l hl⟩

theorem head?_opening : (Utf8.encode Script.opening).head? = some 0x22 := by decide

theorem head?_content (c : Chunk) (text : Path → Bytes) : (chunkContent c text).head? = some 0x22 := by
  simp only [chunkContent, Script.preamble, Utf8.encode_append, List.append_assoc, List.head?_append, head?_opening,
    Option.some_or]

theorem head?_toJson (m : Manifest) : (Utf8.encode m.toJson).head? = some 0x7B := by
  have hbrace : (Utf8.encode "\x7b").head? = some 0x7B := by decide
  rw [Manifest.toJson, Json.prettyObject, Json.block, List.map_cons, if_neg (List.cons_ne_nil _ _)]
  simp only [Utf8.encode_append, List.append_assoc, List.head?_append, hbrace, Option.some_or]

theorem clear_firstScript :
    Clear ⟨"/w/build"⟩ ⟨"/w/dist"⟩ [chunkWith scriptHash] firstScript (chunkWith scriptHash) := by
  refine clear_of_single wellLinked_firstScript (fun _ _ _ hgroup => by cases hgroup) ?_ ?_ (.head _)
  · rw [List.forall_mem_singleton, List.forall_mem_singleton]
    exact fun _ => ⟨rfl, rfl, rfl⟩
  · intro m hm c hc
    rw [List.mem_singleton.1 hc, List.mem_singleton.1 hm, Chunk.place_fileName, Project.place_dist, place_script]
    simp

/-- The script gets another chunk in a tree where its file is not the chunk's own. -/
theorem disturbs_firstScript {source content : Bytes} (hlinkable : Project.Linkable source scriptHash chunkName t')
    (hmodule : (t'.read (Path.join ⟨"/w/build"⟩ ⟨"src/a.js"⟩)).toOption = some [0x78])
    (hread : (linkScript source scriptHash chunkName t').read (Path.join ⟨"/w/dist"⟩ ⟨chunkName⟩) = .ok content)
    (hother : chunkContent (chunkWith scriptHash) (fun _ => [0x78]) ≠ content) :
    Disturbs firstScript t' ⟨"/w/build"⟩ ⟨"/w/dist"⟩ ["./src/a.js"] ["./src/a.js"] scriptEntry := by
  have hfirst := Project.linkable_scripts.1
  have hfind := Project.find_changing hfirst.1
  have hfind' := Project.find_changing hlinkable.1
  have hchunk : chunkWith scriptHash ∈
      Chunker.perEntrypoint.chunks (bundleWith scriptHash).entrypoints (bundleWith scriptHash).files := .head _
  have hmember : (⟨"src/a.js"⟩, ⟨recordWith scriptHash, ["./src/a.js"]⟩) ∈ (bundleWith scriptHash).files := .head _
  have hlinked := linked_of_write hfind (Project.write_changing hfirst Project.fileName_first)
  have hlinked' := linked_of_write hfind' (Project.write_changing hlinkable Project.fileName_first)
  have hrecords := And.intro (find_record hfind hmember) (find_record hfind' hmember)
  have hagree : Agree firstScript ⟨"/w/build"⟩ t' ⟨"/w/build"⟩ ⟨"src/a.js"⟩ := by
    refine Agree.of_records [(⟨"src/a.js"⟩, recordWith scriptHash)] (.head _) ?_ ?_ ?_
    · exact List.forall_mem_singleton.2 fun i hi => absurd hi List.not_mem_nil
    · exact List.forall_mem_singleton.2 hrecords
    · exact List.forall_mem_singleton.2 ((eq_of_toOption found_firstScript.2.1).trans (eq_of_toOption hmodule).symm)
  obtain ⟨-, hfile⟩ := clear_firstScript.read_of_publishes (.head _) (read_records hfind hchunk)
    (Chunker.nodup_modules hfind .perEntrypoint) hlinked.2.1
  have hcontent : chunkContent (chunkWith scriptHash) (Script.compiledText firstScript ⟨"/w/build"⟩) =
      chunkContent (chunkWith scriptHash) fun _ => [0x78] := by
    rw [chunkContent_eq_iff rfl rfl]
    refine Script.body_congr fun module hm => ?_
    rw [List.mem_singleton.1 hm]
    exact Script.compiledText_of_read (eq_of_toOption found_firstScript.2.1)
  rw [hcontent] at hfile
  have hread' : (linkScript source scriptHash chunkName t').read
      (Path.join ⟨"/w/dist"⟩ ⟨(chunkWith scriptHash).fileName⟩) = .ok content := by
    rw [Project.fileName_first]
    exact hread
  have hentry : scriptEntry ∈ (bundleWith scriptHash).entrypoints := .head _
  exact ⟨bundleWith scriptHash, bundleWith scriptHash, _, _, _, _, _, _, _, ⟨hentry, hentry, hagree⟩, hlinked,
    hlinked', get?_of_find hfind hchunk rfl, get?_of_find hfind' hchunk rfl, hfile, hread', hother⟩

/-- The chunk finds its module empty. -/
theorem disturbs_sharedModule :
    Disturbs firstScript sharedModule ⟨"/w/build"⟩ ⟨"/w/dist"⟩ ["./src/a.js"] ["./src/a.js"] scriptEntry := by
  obtain ⟨hshared, hmanifest⟩ := names_sharedModule
  obtain ⟨text, hread, htext⟩ := read_of_own_module (p := ⟨"src/a.js"⟩) wellLinked_sharedModule (.head _)
    (by rwa [place_script, Chunk.place_fileName, Project.fileName_first, Project.place_dist])
    (by rwa [Chunk.place_fileName, Project.place_manifest, Project.fileName_first, Project.place_dist])
    (Project.write_changing linkable_sharedModule Project.fileName_first)
  rw [Project.fileName_first] at hread
  refine disturbs_firstScript linkable_sharedModule (by decide) hread ?_
  rw [Ne, chunkContent_eq_iff rfl rfl]
  simp [chunkWith, Script.body, Script.wrap, htext]

/-- The manifest is written over the chunk. -/
theorem disturbs_sharedManifest :
    Disturbs firstScript sharedManifest ⟨"/w/build"⟩ ⟨"/w/dist"⟩ ["./src/a.js"] ["./src/a.js"] scriptEntry := by
  have hshared := names_sharedManifest
  have hread := read_of_own_manifest wellLinked_sharedManifest
    (by rwa [Chunk.place_fileName, Project.place_manifest, Project.fileName_first, Project.place_dist])
    (Project.write_changing linkable_sharedManifest Project.fileName_first)
  rw [Project.fileName_first] at hread
  refine disturbs_firstScript linkable_sharedManifest (by decide) hread fun heq => ?_
  have hhead := congrArg List.head? heq
  rw [head?_content, head?_toJson] at hhead
  exact absurd hhead (by decide)

end Script

/-- The name of the chunk of a script. -/
def clashName : String := "y.f984ebc090d019689e07afe4cc01f1240ff1c37220a1c308a74ba37eab0c3ba8.js"

/-- A script, and another one that has the name of its chunk. -/
def clashTree : FileTree :=
  compiledFiles "b" "e" [(⟨"y.js"⟩, ⟨⟨"y.js"⟩, "", []⟩), (⟨clashName⟩, ⟨⟨clashName⟩, "", []⟩)]

/-- The chunk of the script. -/
def firstChunk : Chunk := ⟨some ⟨"./y", ⟨"y.js"⟩⟩, [(⟨"y.js"⟩, "")], []⟩

/-- The chunk of the other one. -/
def clashChunk : Chunk := ⟨some ⟨"./" ++ clashName, ⟨clashName⟩⟩, [(⟨clashName⟩, "")], []⟩

/-- The names of the two chunks. -/
def clashNames : List String :=
  [clashName, "y.f984ebc090d019689e07afe4cc01f1240ff1c37220a1c308a74ba37eab0c3ba8." ++
    "9ecc0c363112ceb9bc56f60485bb3f79f24d8f014143c1b0945b5d1a5a26557a.js"]

theorem fileName_clash : [firstChunk, clashChunk].map Chunk.fileName = clashNames := by decide +kernel

theorem found_clashTree :
    foundChunks clashTree ⟨"b"⟩ ["./" ++ clashName] = some [clashChunk] ∧
      foundChunks clashTree ⟨"b"⟩ ["./y", "./" ++ clashName] = some [firstChunk, clashChunk] := by decide +kernel

theorem writable_clashTree :
    Writable clashTree ⟨"b"⟩ ⟨"b"⟩ (clashNames.drop 1) [clashChunk] ∧
      Aside ⟨"b"⟩ ⟨"b"⟩ (clashNames.drop 1) [clashChunk] ∧
      Writable clashTree ⟨"b"⟩ ⟨"b"⟩ clashNames [firstChunk, clashChunk] := by decide +kernel

theorem compiledText_clashTree : Script.compiledText clashTree ⟨"b"⟩ ⟨clashName⟩ = [] := by decide

/-- A chunk in the place of an empty module is not taken for it. -/
theorem wrap_content_ne (module : Path) (c : Chunk) (text : Path → Bytes) :
    Script.wrap module [] ≠ Script.wrap module (chunkContent c text) := by
  intro heq
  simp only [Script.wrap, List.append_assoc, List.append_cancel_left_eq] at heq
  have hfirst := congrArg List.head? heq
  rw [List.head?_append, List.head?_append, List.head?_append, head?_content] at hfirst
  rw [Option.some_or, List.getLast?_nil, if_neg (Option.some_ne_none _).symm] at hfirst
  cases hfirst

/-- The chunk of one script is written over the other one before that is read. -/
theorem disturbs_clashTree : Disturbs clashTree clashTree ⟨"b"⟩ ⟨"b"⟩ ["./" ++ clashName] ["./y", "./" ++ clashName]
    ⟨"./" ++ clashName, ⟨clashName⟩⟩ := by
  obtain ⟨hfound, hfound'⟩ := found_clashTree
  obtain ⟨hwritable, haside, hwritable'⟩ := writable_clashTree
  have hnames : [clashChunk].map Chunk.fileName = clashNames.drop 1 := congrArg (List.drop 1) fileName_clash
  have hclear : Clear ⟨"b"⟩ ⟨"b"⟩ [clashChunk] clashTree clashChunk := haside.clear rfl hnames (by decide) (.head _)
  obtain ⟨u, hwrite⟩ := hwritable.exists_write rfl hnames
  have hpublishes := (publishes_of_write hwrite).2
  obtain ⟨b, hlinked, hentry⟩ := linked_of_found hfound hpublishes
  -- the other chunk comes first
  obtain ⟨v, written, u', hfirst, hsecond, hsave⟩ := exists_in_turn hclear.well
    (fun c hc => hwritable'.exists_chunk fileName_clash hc) (fun c hc => hwritable'.exists_module hc)
    hwritable'.exists_manifest (Manifest.ofChunks [firstChunk, clashChunk])
  have hpublishes' : Publishes ⟨"b"⟩ ⟨"b"⟩ [firstChunk, clashChunk] clashTree u' :=
    ⟨clashTree, written, makeDirectories_of_isDirectory hwritable'.1,
      (ends_of_writeChunks_ok hfirst).cons (ends_of_writeChunks_ok hsecond), hsave⟩
  obtain ⟨b', hlinked', hentry'⟩ := linked_of_found hfound' hpublishes'
  have hplace : Path.join ⟨"b"⟩ ⟨clashName⟩ = Path.join ⟨"b"⟩ ⟨firstChunk.fileName⟩ := by
    rw [(List.cons.inj fileName_clash).1]
  have hother : place (Path.join ⟨"b"⟩ ⟨firstChunk.fileName⟩) ∉
      clashTree.names (place (Path.join ⟨"b"⟩ ⟨clashChunk.fileName⟩)) := by
    rw [names_of_alone fun _ hgroup => absurd hgroup List.not_mem_nil, List.mem_singleton, Chunk.place_fileName,
      Chunk.place_fileName, (List.cons.inj fileName_clash).1, (List.cons.inj hnames).1]
    decide
  obtain ⟨-, hread⟩ :=
    hclear.read_of_publishes (.head _) (records_of_found hfound (.head _)) (nodup_of_found hfound) hpublishes
  obtain ⟨text, text', hread', hover⟩ :=
    read_of_overwritten hclear.well hplace hother hclear.manifest hfirst hsecond hsave
  have hboth := And.intro (hentry clashChunk (.head _) _ rfl) (hentry' clashChunk (.tail _ (.head _)) _ rfl)
  refine ⟨b, b', u, u', _, _, _, _, _, ⟨hboth.1, hboth.2, .refl ..⟩, hlinked, hlinked',
    get?_of_found hfound (.head _) rfl, get?_of_found hfound' (.tail _ (.head _)) rfl, hread, hread', fun hsame => ?_⟩
  rw [chunkContent_eq_iff rfl rfl] at hsame
  simp only [clashChunk, List.map_cons, List.map_nil, Script.body, List.flatMap_singleton, compiledText_clashTree,
    hover] at hsame
  exact wrap_content_ne _ _ _ hsame

end Bundle
end Bundler
