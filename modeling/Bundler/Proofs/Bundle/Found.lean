import Bundler.Proofs.Bundle.Follow
import Bundler.Proofs.FileTree.Spelling
import Bundler.Proofs.Import.Retarget
import Bundler.Proofs.Resolve.Answers
/-!
# What a bundle consists of

A bundle has exactly the files that chains of imports lead to from its modules, each with its own record, and
marks each one with exactly the specifiers whose modules lead there (`find_exact`). Paths are compared, not
their spellings: a record that lists another spelling of a path imports the same file, and two spellings of
a file have one record (`require_unique`).
-/

namespace Bundler

open Relation (ReflTransGen)

variable {t : FileTree} {root base module p q i : Path} {r r' : Record} {specifier : String}

/-! ## One record for a file -/

/-- A file has one record, however its path is spelled. -/
theorem Record.require_unique (hfile : t.isFile (root.join i) = true) (hp : i.Same p) (hq : i.Same q)
    (hr : Record.require t (root.join (pathFor p)) = .ok r)
    (hr' : Record.require t (root.join (pathFor q)) = .ok r') : r = r' := by
  obtain ⟨content, hnode⟩ := FileTree.node?_of_isFile hfile
  rw [FileTree.place_join_of_same root hp] at hnode
  rw [join_pathFor] at hr hr'
  obtain ⟨x, hx, hdecode⟩ := read_of_require hr
  obtain ⟨y, hy, hdecode'⟩ := read_of_require hr'
  have hplace := FileTree.place_join_of_same root (hp.symm.trans hq)
  rw [FileTree.read_beside_congr hplace hnode (by decide) (by decide) hx hy, hdecode'] at hdecode
  cases hdecode
  rfl

namespace Bundle

variable {m : Path} {modules : List Path} {s s' : Search} {b : Bundle} {specifiers : List String}
  {entrypoints : List Entrypoint}

/-! ## Chains of imports -/

/-- A chain of imports from one path leads to a spelling of the other. -/
def Leads (t : FileTree) (root m p : Path) : Prop := ∃ q, ReflTransGen (Imports t root) m q ∧ q.Same p

namespace Search

/-- Where imports lead to, there is a file that was found, and the records that were found lead there too. -/
theorem Valid.lists_of_imports (hs : Valid t root modules [] s) (hdone : s.pending = [])
    (hm : m ∈ s.records.map Prod.fst) (hchain : ReflTransGen (Imports t root) m q) :
    (∃ entry ∈ s.records, q.Same entry.1 ∧ (q = entry.1 ∨ ∃ i, i.Same q ∧ t.isFile (root.join i) = true)) ∧
      ∃ p, ReflTransGen (Lists s.records) m p ∧ p.Same q := by
  induction hchain with
  | refl =>
    obtain ⟨entry, hentry, rfl⟩ := List.mem_map.1 hm
    exact ⟨⟨entry, hentry, rfl, .inl rfl⟩, entry.1, .refl, rfl⟩
  | tail _ hstep ih =>
    obtain ⟨⟨entry, hentry, hsame, hspelled⟩, p, hlists, hp⟩ := ih
    obtain ⟨r, hr, i, hi, hiq⟩ := hstep
    have hrecord := hs.record entry hentry
    obtain rfl : r = entry.2 := by
      rcases hspelled with rfl | ⟨j, hj, hfile⟩
      · rw [hr] at hrecord
        cases hrecord
        rfl
      · exact Record.require_unique hfile hj (hj.trans hsame) hr hrecord
    obtain ⟨hfile, entry', hentry', hsame'⟩ := hs.follows hdone entry hentry i hi
    refine ⟨⟨entry', hentry', hiq.symm.trans hsame', .inr ⟨i, hiq, hfile⟩⟩, i, hlists.tail ?_, hiq⟩
    rw [Lists, importsOf_of_mem hs.ascending hentry (hp.trans hsame)]
    exact hi

theorem Valid.imports_of_lists (hs : Valid t root modules [] s) (hdone : s.pending = [])
    (hm : m ∈ s.records.map Prod.fst) (hchain : ReflTransGen (Lists s.records) m p) :
    ∃ entry ∈ s.records, p.Same entry.1 ∧ ReflTransGen (Imports t root) m entry.1 := by
  induction hchain with
  | refl =>
    obtain ⟨entry, hentry, rfl⟩ := List.mem_map.1 hm
    exact ⟨entry, hentry, rfl, .refl⟩
  | tail _ hstep ih =>
    obtain ⟨entry, hentry, hsame, himports⟩ := ih
    rw [Lists, importsOf_of_mem hs.ascending hentry hsame] at hstep
    obtain ⟨-, entry', hentry', hsame'⟩ := hs.follows hdone entry hentry _ hstep
    exact ⟨entry', hentry', hsame', himports.tail ⟨_, hs.record entry hentry, _, hstep, hsame'⟩⟩

/-- The walk from a module comes by all that imports lead to. -/
theorem Valid.among_reachable_iff (hs : Valid t root modules [] s) (hdone : s.pending = [])
    (hm : m ∈ s.records.map Prod.fst) : Among p (reachable s.records m) ↔ Leads t root m p := by
  rw [mem_reachable_iff]
  constructor
  · rintro ⟨q, hchain, hsame⟩
    obtain ⟨entry, -, hentry, himports⟩ := hs.imports_of_lists hdone hm hchain
    exact ⟨entry.1, himports, hentry.symm.trans hsame⟩
  · rintro ⟨q, hchain, hsame⟩
    obtain ⟨-, k, hlists, hk⟩ := hs.lists_of_imports hdone hm hchain
    exact ⟨k, hlists, hk.trans hsame⟩

end Search

/-! ## Marks -/

/-- A file of a bundle is one that was found, marked with the entrypoints whose walks come by it. -/
theorem of_mem_markFiles {records : Records} {f : Path × BundleFile} (hf : f ∈ markFiles records entrypoints) :
    (f.1, f.2.record) ∈ records ∧ f.2.entrypoints.Nodup ∧ ∀ specifier, specifier ∈ f.2.entrypoints ↔
      ∃ e ∈ entrypoints, e.specifier = specifier ∧ Among f.1 (reachable records e.module) := by
  rw [markFiles, List.mem_map] at hf
  obtain ⟨⟨path, record⟩, hentry, rfl⟩ := hf
  refine ⟨hentry, Sorted.nodup_keys, fun specifier => ?_⟩
  rw [Sorted.mem_keys]
  simp only [List.mem_filterMap, List.mem_map, any_same_iff, Option.ite_none_right_eq_some, Option.some.injEq]
  constructor
  · rintro ⟨_, ⟨e, he, rfl⟩, hamong, rfl⟩
    exact ⟨e, he, rfl, hamong⟩
  · rintro ⟨e, he, rfl, hamong⟩
    exact ⟨_, ⟨e, he, rfl⟩, hamong, rfl⟩

theorem ascending_marks {records : Records} {f : Path × BundleFile} (hf : f ∈ markFiles records entrypoints) :
    f.2.entrypoints.Pairwise fun a b => Ord.compare a b = .lt := by
  rw [markFiles, List.mem_map] at hf
  obtain ⟨entry, -, rfl⟩ := hf
  exact Sorted.pairwise_keys

theorem keys_markFiles (records : Records) (entrypoints : List Entrypoint) :
    (markFiles records entrypoints).map Prod.fst = records.map Prod.fst := by
  rw [markFiles, List.map_map]
  rfl

/-! ## Bundles -/

theorem entrypoints_of_add (h : Search.addEntrypoints t root specifiers s = .ok (entrypoints, s')) :
    entrypoints.map (·.specifier) = specifiers ∧
      (∀ e ∈ entrypoints, resolve t root ⟨""⟩ e.specifier = .ok e.module) ∧
      ∀ entry ∈ s'.records, entry ∈ s.records ∨ entry.1 ∈ entrypoints.map (·.module) := by
  induction specifiers generalizing s entrypoints with
  | nil =>
    rw [Search.addEntrypoints_nil, Except.ok.injEq, Prod.mk.injEq] at h
    obtain ⟨rfl, rfl⟩ := h
    exact ⟨rfl, fun _ he => absurd he List.not_mem_nil, fun _ hentry => .inl hentry⟩
  | cons specifier rest ih =>
    rw [Search.addEntrypoints_cons] at h
    split at h
    · cases h
    next hresolve =>
    split at h
    · cases h
    next s₁ hadd =>
    split at h
    · cases h
    next hrest =>
    cases h
    obtain ⟨hspecifiers, hmodules, hkeys⟩ := ih hrest
    refine ⟨by rw [List.map_cons, hspecifiers], List.forall_mem_cons.2 ⟨hresolve, hmodules⟩, fun entry hentry => ?_⟩
    rw [List.map_cons, List.mem_cons]
    rcases hkeys entry hentry with hentry | hentry
    · rcases Search.keys_of_add hadd entry hentry with hentry | hentry
      · exact .inl hentry
      · exact .inr (.inl hentry)
    · exact .inr (.inr hentry)

/-- Where the search of a bundle begins. -/
theorem begin_search (h : Search.addEntrypoints t root (keepFirst specifiers) ⟨[], []⟩ = .ok (entrypoints, s)) :
    Search.Valid t root (entrypoints.map (·.module)) [] s ∧
      (∀ e ∈ entrypoints, e.module ∈ s.records.map Prod.fst) ∧
      Search.Ends t root s (s.follow t root (importCount t + specifiers.length + 1)) := by
  obtain ⟨hspecifiers, hmodules, hkeys⟩ := entrypoints_of_add h
  have hvalid := (Search.valid_nil t root (entrypoints.map (·.module))).addEntrypoints h
    fun e he => List.mem_map_of_mem he
  refine ⟨hvalid, fun e he => ?_, Search.ends_follow hvalid ?_⟩
  · obtain ⟨entry, hentry, hsame⟩ := (Search.extends_addEntrypoints h).2 e he
    obtain ⟨e', he', heq⟩ := List.mem_map.1 ((hkeys entry hentry).resolve_left List.not_mem_nil)
    -- both are in normal form
    rw [(neat_resolve (hmodules e he)).eq_of_same (heq ▸ neat_resolve (hmodules e' he')) hsame]
    exact List.mem_map_of_mem hentry
  · have hlength := Search.length_addEntrypoints h
    have hcount := congrArg List.length hspecifiers
    have hle := length_keepFirst_le specifiers
    rw [List.length_map] at hcount ⊢
    simp only [List.length_nil] at hlength
    omega

/-- A search that followed everything and became a bundle. -/
structure Followed (t : FileTree) (root : Path) (specifiers : List String) (b : Bundle) (s : Search) : Prop where
  valid : Search.Valid t root (b.entrypoints.map (·.module)) [] s
  done : s.pending = []
  starts : ∀ e ∈ b.entrypoints, e.module ∈ s.records.map Prod.fst
  files : b.files = markFiles s.records b.entrypoints
  asked : b.entrypoints.map (·.specifier) = keepFirst specifiers
  resolved : ∀ e ∈ b.entrypoints, resolve t root ⟨""⟩ e.specifier = .ok e.module

theorem exists_followed (h : find t root specifiers = .ok b) : ∃ s, Followed t root specifiers b s := by
  unfold find at h
  split at h
  · cases h
  next hentry =>
  split at h
  · cases h
  next s hfollow =>
  cases h
  obtain ⟨hspecifiers, hmodules, -⟩ := entrypoints_of_add hentry
  obtain ⟨hvalid, hstart, hends⟩ := begin_search hentry
  rw [hfollow] at hends
  obtain ⟨hvalid', hdone⟩ := hends.valid hvalid
  refine ⟨s, hvalid', hdone, fun e he => ?_, rfl, hspecifiers, hmodules⟩
  obtain ⟨entry, hentry, heq⟩ := List.mem_map.1 (hstart e he)
  rw [← heq]
  exact List.mem_map_of_mem ((Search.extends_follow hfollow).keeps entry hentry)

namespace Followed

variable {f : Path × BundleFile} (hs : Followed t root specifiers b s)
include hs

theorem of_mem (hf : f ∈ b.files) : (f.1, f.2.record) ∈ s.records := (of_mem_markFiles (hs.files ▸ hf)).1

theorem exists_mem {entry : Path × Record} (h : entry ∈ s.records) :
    ∃ f ∈ b.files, f.1 = entry.1 ∧ f.2.record = entry.2 := by
  rw [hs.files]
  exact ⟨_, List.mem_map_of_mem h, rfl, rfl⟩

theorem nodup (hf : f ∈ b.files) : f.2.entrypoints.Nodup := (of_mem_markFiles (hs.files ▸ hf)).2.1

theorem ascending : Sorted.Ascending Path.compare b.files := by
  rw [Sorted.Ascending, hs.files, keys_markFiles]
  exact hs.valid.ascending

theorem marked_iff (hf : f ∈ b.files) : specifier ∈ f.2.entrypoints ↔
    ∃ e ∈ b.entrypoints, e.specifier = specifier ∧ Among f.1 (reachable s.records e.module) :=
  (of_mem_markFiles (hs.files ▸ hf)).2.2 specifier

end Followed

/-- A bundle with exactly what can be reached. -/
structure Exact (t : FileTree) (root : Path) (specifiers : List String) (b : Bundle) : Prop where
  /-- Each specifier that was asked for has one entrypoint. -/
  asked : ∀ specifier, specifier ∈ b.entrypoints.map (·.specifier) ↔ specifier ∈ specifiers
  /-- The specifiers come in the order in which they were asked for first. -/
  inOrder : (b.entrypoints.map (·.specifier)).Pairwise fun x y => specifiers.idxOf x < specifiers.idxOf y
  resolved : ∀ e ∈ b.entrypoints, resolve t root ⟨""⟩ e.specifier = .ok e.module
  reached : ∀ p, (∃ f ∈ b.files, p.Same f.1) ↔ ∃ e ∈ b.entrypoints, Leads t root e.module p
  /-- No two files have spellings of one path. -/
  once : b.files.Pairwise fun f g => ¬ f.1.Same g.1
  record : ∀ f ∈ b.files, Record.require t (root.join (Record.pathFor f.1)) = .ok f.2.record
  marked : ∀ f ∈ b.files, ∀ specifier, specifier ∈ f.2.entrypoints ↔
    ∃ e ∈ b.entrypoints, e.specifier = specifier ∧ Leads t root e.module f.1
  markedOnce : ∀ f ∈ b.files, f.2.entrypoints.Nodup

theorem exact_of_find (h : find t root specifiers = .ok b) : Exact t root specifiers b := by
  obtain ⟨s, hs⟩ := exists_followed h
  refine ⟨fun specifier => ?_, ?_, hs.resolved, fun p => ⟨?_, ?_⟩, ?_,
    fun f hf => hs.valid.record (f.1, f.2.record) (hs.of_mem hf), fun f hf specifier => ?_, fun f hf => hs.nodup hf⟩
  · rw [hs.asked, mem_keepFirst]
  · rw [hs.asked]
    exact pairwise_keepFirst specifiers
  · rintro ⟨f, hf, hsame⟩
    obtain ⟨m, hm, hchain⟩ := hs.valid.reached (f.1, f.2.record) (hs.of_mem hf)
    obtain ⟨e, he, rfl⟩ := List.mem_map.1 hm
    exact ⟨e, he, f.1, hchain.lift id fun _ _ => imports_of_importsAs, hsame.symm⟩
  · rintro ⟨e, he, q, hchain, hsame⟩
    obtain ⟨⟨entry, hentry, hq, -⟩, -⟩ := hs.valid.lists_of_imports hs.done (hs.starts e he) hchain
    obtain ⟨f, hf, heq, -⟩ := hs.exists_mem hentry
    exact ⟨f, hf, heq ▸ hsame.symm.trans hq⟩
  · refine (List.pairwise_map.1 hs.ascending).imp fun hlt hsame => ?_
    rw [Path.compare_eq_iff.2 hsame] at hlt
    cases hlt
  · rw [hs.marked_iff hf]
    refine exists_congr fun e => and_congr_right fun he => and_congr_right fun _ => ?_
    exact hs.valid.among_reachable_iff hs.done (hs.starts e he)

theorem Exact.nodup_specifiers (hb : Exact t root specifiers b) : (b.entrypoints.map (·.specifier)).Nodup :=
  hb.inOrder.imp fun hlt heq => by
    rw [heq] at hlt
    exact Nat.lt_irrefl _ hlt

/-- Whatever the records list, the search for a bundle ends; where it finds a bundle, the bundle has exactly
what can be reached from its entrypoints. -/
theorem find_exact (t : FileTree) (root : Path) (specifiers : List String) :
    (∀ entrypoints s, Search.addEntrypoints t root (keepFirst specifiers) ⟨[], []⟩ = .ok (entrypoints, s) →
      Search.Ends t root s (s.follow t root (importCount t + specifiers.length + 1))) ∧
    ∀ b, find t root specifiers = .ok b → Exact t root specifiers b :=
  ⟨fun _ _ h => (begin_search h).2.2, fun _ h => exact_of_find h⟩

/-- A search that is done in fewer steps than it is granted gives the bundle. -/
theorem find_of_done {s₀ : Search} {n : Nat}
    (hadd : Search.addEntrypoints t root (keepFirst specifiers) ⟨[], []⟩ = .ok (entrypoints, s₀))
    (hfollow : s₀.follow t root n = .ok s) (hdone : s.pending = []) (hn : n ≤ specifiers.length + 1) :
    find t root specifiers = .ok ⟨root, entrypoints, markFiles s.records entrypoints⟩ := by
  have hmore : s₀.follow t root (importCount t + specifiers.length + 1) = .ok s :=
    Search.follow_of_le hfollow hdone (by omega)
  rw [find, hadd]
  dsimp only
  rw [hmore]

/-- Two scripts that import each other, one of them itself too, and one that imports itself alone. -/
def ringRecords : Records :=
  [(⟨"x.js"⟩, ⟨⟨"x.js"⟩, "", [⟨"y.js"⟩]⟩), (⟨"y.js"⟩, ⟨⟨"y.js"⟩, "", [⟨"x.js"⟩, ⟨"y.js"⟩]⟩),
    (⟨"z.js"⟩, ⟨⟨"z.js"⟩, "", [⟨"z.js"⟩]⟩)]

theorem neat_ringRecords : ∀ entry ∈ ringRecords, ∀ i ∈ entry.2.imports, i.Neat := by
  have hnormal : ∀ entry ∈ ringRecords, ∀ i ∈ entry.2.imports, i.normalize = i := by decide
  exact fun entry hentry i hi => Path.neat_of_normalize (hnormal entry hentry i hi)

/-- The compiled files of the rings. -/
def rings : FileTree :=
  let compiled := ringRecords.flatMap fun (path, record) =>
    [(["b", path.text], .file []), (["b", (Record.pathFor path).text], .file record.encode)]
  ⟨(["b"], .directory) :: compiled, [], []⟩

/-- Where the search of the rings begins. -/
def ringEntrypoints : List Entrypoint := [⟨"./x", ⟨"x.js"⟩⟩, ⟨"./z.js", ⟨"z.js"⟩⟩]

theorem addEntrypoints_repeated :
    Search.addEntrypoints rings ⟨"b"⟩ (keepFirst ["./x", "./z.js", "./x"]) ⟨[], []⟩ =
      .ok (ringEntrypoints, ⟨ringRecords.eraseIdx 1, [⟨"z.js"⟩, ⟨"x.js"⟩]⟩) :=
  FileTree.eq_of_toOption (by decide)

theorem find_repeated : find rings ⟨"b"⟩ ["./x", "./z.js", "./x"] =
    .ok ⟨⟨"b"⟩, ringEntrypoints, markFiles ringRecords ringEntrypoints⟩ :=
  FileTree.eq_of_toOption (by decide)

theorem entrypoints_markFiles_rings :
    (markFiles ringRecords ringEntrypoints).map (fun f => (f.1, f.2.entrypoints)) =
      [(⟨"x.js"⟩, ["./x"]), (⟨"y.js"⟩, ["./x"]), (⟨"z.js"⟩, ["./z.js"])] := by decide

/-- A specifier that is asked for twice marks the files of its ring once. -/
theorem find_rings :
    (∃ s, Search.addEntrypoints rings ⟨"b"⟩ (keepFirst ["./x", "./z.js", "./x"]) ⟨[], []⟩ = .ok (ringEntrypoints, s) ∧
      s.pending = [⟨"z.js"⟩, ⟨"x.js"⟩] ∧ Search.Ends rings ⟨"b"⟩ s (s.follow rings ⟨"b"⟩ (importCount rings + 3 + 1))) ∧
    ∃ b, find rings ⟨"b"⟩ ["./x", "./z.js", "./x"] = .ok b ∧ b.entrypoints = ringEntrypoints ∧
      b.files.map (fun f => (f.1, f.2.entrypoints)) =
        [(⟨"x.js"⟩, ["./x"]), (⟨"y.js"⟩, ["./x"]), (⟨"z.js"⟩, ["./z.js"])] ∧
      Exact rings ⟨"b"⟩ ["./x", "./z.js", "./x"] b := by
  obtain ⟨hends, hexact⟩ := find_exact rings ⟨"b"⟩ ["./x", "./z.js", "./x"]
  exact ⟨⟨_, addEntrypoints_repeated, rfl, hends _ _ addEntrypoints_repeated⟩, _, find_repeated, rfl,
    entrypoints_markFiles_rings, hexact _ find_repeated⟩

end Bundle
end Bundler
