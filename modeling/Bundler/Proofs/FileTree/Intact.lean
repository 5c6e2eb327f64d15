import Bundler.Proofs.FileTree.Copy
import Bundler.Proofs.FileTree.Inside
/-!
# Trees stay as a file system holds them

An `Intact` tree is proper, only files have several names, and each name is listed once. Writing files and making
directories leave it so (`Intact.write`, `Intact.makeParent`): a file is made under one more name in a directory that
is there, and what is written under one name is a file under all of them. So does copying a file, whatever names it
and its copy have (`Intact.copy`, `sameBut_copy`).
-/

namespace Bundler.FileTree

variable {t t' u : FileTree} {p src dst : Path} {l m : Location} {n : Node} {content : Bytes}

/-- What a file system holds, the names of files that have several included. -/
structure Intact (t : FileTree) : Prop extends Proper t where
  linked : t.WellLinked
  distinct : ∀ group ∈ t.links, group.Nodup

/-- A file is made, or written again, or a directory is made where nothing was. -/
def Puts (t : FileTree) (l : Location) (n : Node) : Prop :=
  t.node? l = none ∨ (∃ old, t.node? l = some (.file old)) ∧ ∃ content, n = .file content

/-- What is made by an operation is made in a directory, under a name that can be spelled. -/
theorem directory_of_aim {parent : Location} {name : String} {slash : Bool}
    (h : t.aim p = .ok (.name parent name slash)) : t.node? parent = some .directory ∧ '/' ∉ name.toList := by
  obtain ⟨front, behind, hps, -, -, -, -, -, hdir⟩ := aim_eq_name.1 h
  refine ⟨hdir, Path.slash_notMem_of_mem_pieces (p := p) ?_⟩
  rw [← pieces_eq hps]
  exact List.mem_append_right front List.mem_cons_self

theorem mem_entries_put {e : Location × Node} (he : e ∈ (t.put l n).entries) : e.1 ∈ t.names l ∨ e ∈ t.entries := by
  rcases List.mem_append.1 he with he | he
  · obtain ⟨m, hm, rfl⟩ := List.mem_map.1 he
    exact .inl hm
  · exact .inr (List.mem_filter.1 he).1

namespace Intact

variable (h : t.Intact)
include h

theorem names_nodup (l : Location) : (t.names l).Nodup := by
  unfold names
  cases hfind : t.links.find? fun group => group.contains l with
  | none => exact List.nodup_singleton l
  | some group => exact h.distinct group (List.mem_of_find?_eq_some hfind)

/-- What has another name is a file. -/
theorem file_of_mem_names (hm : m ∈ t.names l) (hne : m ≠ l) :
    (∃ content, t.node? m = some (.file content)) ∧ ∃ content, t.node? l = some (.file content) := by
  obtain ⟨group, hgroup, hm, hl⟩ := mem_links_of_mem_names hm hne
  exact ⟨h.linked group hgroup m hm, h.linked group hgroup l hl⟩

theorem not_directory (hputs : t.Puts l n) (hm : m ∈ t.names l) : t.node? m ≠ some .directory := by
  by_cases hne : m = l
  · subst hne
    rcases hputs with hnone | ⟨⟨old, hold⟩, -⟩
    · simp [hnone]
    · simp [hold]
  · obtain ⟨⟨content, hfile⟩, -⟩ := h.file_of_mem_names hm hne
    simp [hfile]

/-- What is there after a node was put has been there, or has a name of what was put. -/
theorem entry_of_put (hl : l ≠ []) (hspelled : Spelled l) (hdir : t.node? l.dropLast = some .directory)
    {e : Location × Node} (he : e ∈ (t.put l n).entries) :
    e.1 ≠ [] ∧ Spelled e.1 ∧ t.node? e.1.dropLast = some .directory := by
  have old {e : Location × Node} (he : e ∈ t.entries) :
      e.1 ≠ [] ∧ Spelled e.1 ∧ t.node? e.1.dropLast = some .directory :=
    ⟨(h.named e he).1, (h.named e he).2, h.inside e he⟩
  rcases mem_entries_put he with hm | he
  · by_cases heq : e.1 = l
    · rw [heq]
      exact ⟨hl, hspelled, hdir⟩
    · obtain ⟨⟨content, hfile⟩, -⟩ := h.file_of_mem_names hm heq
      have hne : e.1 ≠ [] := by
        intro hnil
        rw [hnil] at hfile
        cases hfile
      exact old (e := (e.1, .file content)) (h.mem_entries_iff.2 ⟨hne, hfile⟩)
  · exact old he

theorem once_put : ((t.put l n).entries.map Prod.fst).Nodup := by
  have hkeys : (t.names l).map (Prod.fst ∘ fun m => (m, n)) = t.names l := List.map_id _
  rw [FileTree.put, List.map_append, List.map_map, hkeys]
  refine (h.names_nodup l).append (h.once.sublist (List.filter_sublist.map _)) fun m hm hm' => ?_
  obtain ⟨e, he, rfl⟩ := List.mem_map.1 hm'
  exact (by simpa using (List.mem_filter.1 he).2 : e.1 ∉ t.names l) hm

/-- What has another name is written as a file. -/
theorem wellLinked_put (hputs : t.Puts l n) : (t.put l n).WellLinked := by
  intro group hgroup m hm
  obtain ⟨content, hfile⟩ := h.linked group hgroup m hm
  have hne : m ≠ [] := by
    rintro rfl
    cases hfile
  rw [node?_put _ _ _ hne]
  split
  · next hnames =>
    have hold : ∃ content, t.node? l = some (.file content) := by
      by_cases heq : m = l
      · exact ⟨content, heq ▸ hfile⟩
      · exact (h.file_of_mem_names hnames heq).2
    obtain ⟨_, hold⟩ := hold
    rcases hputs with hnone | ⟨-, content', rfl⟩
    · rw [hnone] at hold
      cases hold
    · exact ⟨content', rfl⟩
  · exact ⟨content, hfile⟩

theorem put (hl : l ≠ []) (hspelled : Spelled l) (hdir : t.node? l.dropLast = some .directory) (hputs : t.Puts l n) :
    (t.put l n).Intact := by
  have hentry {e : Location × Node} := h.entry_of_put (n := n) (e := e) hl hspelled hdir
  refine ⟨⟨h.once_put, fun e he => ⟨(hentry he).1, (hentry he).2.1⟩, fun e he => ?_⟩,
    h.wellLinked_put hputs, h.distinct⟩
  have hparent := (hentry he).2.2
  by_cases hnil : e.1.dropLast = []
  · rw [hnil]
    rfl
  · rw [node?_put _ _ _ hnil, if_neg fun hm => h.not_directory hputs hm hparent]
    exact hparent

theorem put_aim {parent : Location} {name : String} {slash : Bool} (haim : t.aim p = .ok (.name parent name slash))
    (hputs : t.Puts (place p) n) : (t.put (place p) n).Intact := by
  obtain ⟨hdir, hslash⟩ := directory_of_aim haim
  obtain ⟨hname, hplace⟩ := aim_name haim
  rw [hplace] at hputs ⊢
  refine h.put (by simp) (fun piece hpiece => ?_) (by rwa [List.dropLast_concat]) hputs
  rcases List.mem_append.1 hpiece with hpiece | hpiece
  · exact h.spelled hdir piece hpiece
  · rw [List.mem_singleton.1 hpiece]
    exact ⟨hname, hslash⟩

theorem write (hwrite : t.write p content = .ok u) : u.Intact := by
  obtain ⟨-, hnode, rfl⟩ := write_eq hwrite
  obtain ⟨parent, name, haim, -⟩ := write_eq_ok.1 hwrite
  refine h.put_aim haim ?_
  cases hn : t.node? (place p) with
  | none => exact .inl hn
  | some n =>
    cases n with
    | directory => exact absurd hn hnode
    | file old => exact .inr ⟨⟨old, hn⟩, content, rfl⟩

theorem makeDirectory (hmake : t.makeDirectory p = .ok u) : u.Intact := by
  obtain ⟨-, hnone, rfl⟩ := makeDirectory_eq hmake
  obtain ⟨parent, name, slash, haim, -⟩ := makeDirectory_eq_ok.1 hmake
  exact h.put_aim haim (.inl hnone)

theorem ensureDirectory (hmake : t.ensureDirectory p = .ok u) : u.Intact := by
  rcases ensureDirectory_cases hmake with hmade | ⟨rfl, -⟩
  · exact h.makeDirectory hmade
  · exact h

theorem ensureAll (paths : List Path) : (t.ensureAll paths).1.Intact := by
  induction paths with
  | nil => exact h
  | cons p parents ih =>
    unfold FileTree.ensureAll
    split
    · exact h
    · split
      · next hp => exact h.ensureDirectory hp
      · split
        · next hparents => rw [hparents] at ih; exact ih
        · next hparents =>
          rw [hparents] at ih
          split
          · next hp => exact ih.ensureDirectory hp
          · exact ih
      · exact h

theorem makeParent (p : Path) : (t.makeParent p).1.Intact := by
  unfold FileTree.makeParent
  split
  · exact h
  · exact h.ensureAll _

end Intact

/-! ## Names that stay -/

/-- What a path denotes is there as long as directories stay and something is in its place. -/
theorem contains_of_directories (hdir : ∀ k, t.node? k = some .directory → u.node? k = some .directory)
    (hthere : (u.node? (place p)).isSome) (h : t.contains p = true) : u.contains p = true := by
  obtain ⟨n, hn⟩ := Option.isSome_iff_exists.1 h
  obtain ⟨hps, hfollow, -⟩ := at?_eq_some.1 hn
  obtain ⟨m, hm⟩ := Option.isSome_iff_exists.1 hthere
  exact Option.isSome_iff_exists.2 ⟨m, at?_eq_some.2 ⟨hps, follow_of_directories hdir hthere hfollow, hm⟩⟩

theorem contains_of_read (h : t.read p = .ok content) : t.contains p = true := by
  rw [contains, read_eq_ok.1 h]
  rfl

/-! ## Copying -/

/-- A copy is made by writing its file, empty at first, and perhaps once more. -/
theorem copy_eq (h : t.copy src dst = .ok u) : ∃ emptied marked, t.write dst [] = .ok emptied ∧
    marked.entries = emptied.entries ∧ marked.links = emptied.links ∧
    (u = marked ∨ ∃ content, marked.write dst content = .ok u) := by
  obtain ⟨l, content, emptied, hl, hnode, hempty⟩ : ∃ l content emptied, t.locate src = .ok l ∧
      t.node? l = some (.file content) ∧ t.write dst [] = .ok emptied := by
    unfold copy at h
    split at h
    · cases h
    next l hl =>
    split at h
    · cases h
    · cases h
    next content hnode =>
    split at h
    · cases h
    next emptied hempty => exact ⟨l, content, emptied, hl, hnode, hempty⟩
  obtain ⟨marked, hentries, hlinks, hcopy⟩ := copy_of_emptied hl hnode hempty
  rw [h] at hcopy
  refine ⟨emptied, marked, hempty, hentries, hlinks, ?_⟩
  split at hcopy
  · next now _ => exact .inr ⟨now, hcopy.symm⟩
  · exact .inl (Except.ok.inj hcopy)

theorem sameBut_of_entries {S : Location → Prop} (hentries : u.entries = t.entries) (hlinks : u.links = t.links) :
    SameBut S t u := by
  have hnode (l : Location) : u.node? l = t.node? l := by rw [node?, node?, hentries]
  exact ⟨fun l _ => hnode l, fun l => by rw [hnode], fun l hl => by rwa [hnode], hlinks⟩

theorem Intact.of_entries (h : t.Intact) (hentries : u.entries = t.entries) (hlinks : u.links = t.links) :
    u.Intact := by
  have hnode (l : Location) : u.node? l = t.node? l := by rw [node?, node?, hentries]
  refine ⟨⟨hentries ▸ h.once, hentries ▸ h.named, fun e he => ?_⟩, fun group hgroup l hl => ?_, hlinks ▸ h.distinct⟩
  · rw [hnode]
    exact h.inside e (hentries ▸ he)
  · rw [hnode]
    exact h.linked group (hlinks ▸ hgroup) l hl

theorem Intact.copy (h : t.Intact) (hcopy : t.copy src dst = .ok u) : u.Intact := by
  obtain ⟨emptied, marked, hwrite, hentries, hlinks, rfl | ⟨content, hagain⟩⟩ := copy_eq hcopy
  · exact (h.write hwrite).of_entries hentries hlinks
  · exact ((h.write hwrite).of_entries hentries hlinks).write hagain

/-- Copying changes the copy under its names, and nothing else. -/
theorem sameBut_copy (h : t.Intact) (hcopy : t.copy src dst = .ok u) :
    SameBut (· ∈ t.names (place dst)) t u ∧ u.contains dst = true := by
  obtain ⟨emptied, marked, hwrite, hentries, hlinks, hend⟩ := copy_eq hcopy
  have hmarked := (sameBut_names h.linked hwrite).trans (sameBut_of_entries hentries hlinks)
  have hthere : marked.contains dst = true :=
    contains_of_directories (fun k hk => by rwa [node?, hentries])
      (by rw [node?, hentries]; exact Option.isSome_iff_exists.2 ⟨_, node?_write hwrite⟩)
      (contains_of_read (read_of_write h.linked hwrite))
  rcases hend with rfl | ⟨content, hagain⟩
  · exact ⟨hmarked, hthere⟩
  · have hintact := (h.write hwrite).of_entries hentries hlinks
    have hlast := sameBut_names hintact.linked hagain
    rw [funext fun l => congrArg (l ∈ ·) (names_congr hmarked.links (place dst))] at hlast
    exact ⟨hmarked.trans hlast, contains_of_read (read_of_write hintact.linked hagain)⟩

end Bundler.FileTree
