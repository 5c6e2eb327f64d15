import Bundler.Proofs.FileTree.Frame
import Bundler.Proofs.FileTree.Proper
/-!
# Trails

The `trail` of a path is all that it leads through, and what a path denotes is decided there: where two trees are
alike on the trail, the path is followed in both the same way (`follow_congr`, `read_congr`, `aim_congr`).

A tree is `Touched` when files were written at some places and directories were made at others. A path that
leads past these places, through new directories perhaps but neither to one nor out of one, denotes what it
denoted before (`at?_of_past`).
-/

namespace Bundler.FileTree

open Bundler.Path (Component)

variable {t t' u v : FileTree} {p q : Path} {here k l : Location} {O O' W W' : Location → Prop}
  {content : Bytes}

/-! ## What a path leads through -/

/-- All that some steps lead through, with the beginning and the end. -/
def along : Location → List Component → List Location
  | here, [] => [here]
  | here, c :: cs => here :: along (enter here c) cs

/-- All that a path leads through, from the top to its place. -/
def trail (p : Path) : List Location := along [] p.components

theorem self_mem_along (here : Location) (cs : List Component) : here ∈ along here cs := by
  cases cs <;> simp [along]

theorem mem_along_append {cs ds : List Component} :
    k ∈ along here (cs ++ ds) ↔ k ∈ along here cs ∨ k ∈ along (cs.foldl enter here) ds := by
  induction cs generalizing here with
  | nil =>
    rw [List.nil_append, List.foldl_nil, along, List.mem_singleton]
    constructor
    · exact .inr
    · rintro (rfl | h)
      · exact self_mem_along k ds
      · exact h
  | cons c cs ih => simp only [List.cons_append, along, List.mem_cons, ih, List.foldl_cons, or_assoc]

theorem foldl_mem_along (here : Location) (cs : List Component) : cs.foldl enter here ∈ along here cs := by
  induction cs generalizing here with
  | nil => exact List.mem_singleton_self _
  | cons c cs ih => exact List.mem_cons_of_mem _ (ih _)

theorem mem_along_of_prefix {cs ds : List Component} (h : cs <+: ds) (hk : k ∈ along here cs) : k ∈ along here ds := by
  obtain ⟨more, rfl⟩ := h
  exact mem_along_append.2 (.inl hk)

/-- What pieces of a path lead through, step by step. -/
theorem mem_along_cons {piece : String} {rest : List String} :
    k ∈ along here ((piece :: rest).filterMap Component.ofPiece) ↔
      k = here ∨ k ∈ along (walk here piece) (rest.filterMap Component.ofPiece) := by
  rw [walk_ofPiece, List.filterMap_cons]
  cases Component.ofPiece piece with
  | none =>
    constructor
    · exact .inr
    · rintro (rfl | h)
      · exact self_mem_along _ _
      · exact h
  | some c => exact List.mem_cons

/-- Names lead down. -/
theorem mem_along_names {names : Location} :
    k ∈ along here (names.map .name) ↔ ∃ part, part <+: names ∧ k = here ++ part := by
  induction names generalizing here with
  | nil => simp [along]
  | cons name names ih =>
    rw [List.map_cons, along, List.mem_cons, ih]
    constructor
    · rintro (rfl | ⟨part, hpart, rfl⟩)
      · exact ⟨[], List.nil_prefix, by simp⟩
      · exact ⟨name :: part, List.cons_prefix_cons.2 ⟨rfl, hpart⟩, by simp [enter]⟩
    · rintro ⟨part, hpart, rfl⟩
      cases part with
      | nil => exact .inl (by simp)
      | cons first part =>
        obtain ⟨rfl, hrest⟩ := List.cons_prefix_cons.1 hpart
        exact .inr ⟨part, hrest, by simp [enter]⟩

theorem foldl_enter_names (here names : Location) : (names.map Component.name).foldl enter here = here ++ names := by
  induction names generalizing here with
  | nil => simp
  | cons name names ih => simp [ih, enter]

theorem place_eq_foldl (p : Path) : place p = p.components.foldl enter [] := foldl_walk_components [] p

theorem place_mem_trail (p : Path) : place p ∈ trail p := place_eq_foldl p ▸ foldl_mem_along [] p.components

/-- The pieces of a path lead through nothing else. -/
theorem mem_trail_of_mem_along (h : k ∈ along [] (p.pieces.filterMap Component.ofPiece)) : k ∈ trail p := by
  unfold trail Path.components
  cases hpieces : p.pieces with
  | nil => simpa [hpieces] using h
  | cons first rest =>
    rw [hpieces] at h
    dsimp only
    split
    · next habs =>
      obtain ⟨others, hothers⟩ := Path.pieces_of_isAbsolute habs
      rw [hpieces, List.cons.injEq] at hothers
      rw [hothers.1] at h
      exact List.mem_cons_of_mem _ h
    · split
      · next hhere =>
        rw [hhere] at h
        exact List.mem_cons_of_mem _ h
      · rw [List.filterMap_cons] at h
        cases hof : Component.ofPiece first with
        | none => simpa [hof] using h
        | some c => simpa [hof] using h

/-- The pieces of a path lead through all of its trail. -/
theorem mem_along_of_mem_trail (h : k ∈ trail p) : k ∈ along [] (p.pieces.filterMap Component.ofPiece) := by
  unfold trail Path.components at h
  cases hpieces : p.pieces with
  | nil => simpa [hpieces] using h
  | cons first rest =>
    rw [hpieces] at h
    dsimp only at h
    have start {c : Component} {cs : List Component} (henter : enter [] c = []) (h : k ∈ along [] (c :: cs)) :
        k ∈ along [] cs := by
      rw [along, List.mem_cons, henter] at h
      rcases h with rfl | h
      · exact self_mem_along _ _
      · exact h
    split at h
    · next habs =>
      obtain ⟨others, hothers⟩ := Path.pieces_of_isAbsolute habs
      rw [hpieces, List.cons.injEq] at hothers
      rw [hothers.1]
      exact start rfl h
    · split at h
      · next hhere =>
        rw [hhere]
        exact start rfl h
      · rw [List.filterMap_cons]
        cases hof : Component.ofPiece first with
        | none => simpa [hof] using h
        | some c => simpa [hof] using h

/-! ## Following alike -/

/-- In both trees there is nothing, or a directory, or a file. -/
def Alike (t u : FileTree) (l : Location) : Prop :=
  ((t.node? l).isSome ↔ (u.node? l).isSome) ∧ (t.node? l = some .directory ↔ u.node? l = some .directory)

theorem Alike.of_eq (h : u.node? l = t.node? l) : Alike t u l := by simp [Alike, h]

theorem Alike.of_directory (h : t.node? l = some .directory) (h' : u.node? l = some .directory) : Alike t u l := by
  simp [Alike, h, h']

/-- Following goes on alike from a place that is alike. -/
theorem Alike.bind {α : Type} (h : Alike t u l) (next : Except IoError α) :
    (match t.node? l with
      | none => Except.error IoError.notFound
      | some (.file _) => Except.error IoError.notADirectory
      | some .directory => next) =
    (match u.node? l with
      | none => Except.error IoError.notFound
      | some (.file _) => Except.error IoError.notADirectory
      | some .directory => next) := by
  obtain ⟨hsome, hdir⟩ := h
  rcases ht : t.node? l with _ | _ | content <;> rcases hu : u.node? l with _ | _ | content' <;> simp_all

theorem follow_congr {ps : List String}
    (h : ∀ k ∈ along here (ps.filterMap Component.ofPiece), Alike t u k) : t.follow here ps = u.follow here ps := by
  induction ps generalizing here with
  | nil =>
    have hhere := (h here (self_mem_along _ _)).1
    simp only [follow]
    by_cases ht : (t.node? here).isSome
    · rw [if_pos ht, if_pos (hhere.1 ht)]
    · rw [if_neg ht, if_neg fun hu => ht (hhere.2 hu)]
  | cons piece rest ih =>
    rw [follow_cons, follow_cons, ih fun k hk => h k (mem_along_cons.2 (.inr hk))]
    exact (h here (self_mem_along _ _)).bind _

theorem locate_congr (h : ∀ k ∈ trail p, Alike t u k) : t.locate p = u.locate p := by
  unfold locate
  split
  · rfl
  next ps hps =>
  rw [pieces_eq hps]
  exact follow_congr fun k hk => h k (mem_trail_of_mem_along hk)

/-- A file is read alike where the trees are alike on its trail and it is the same file. -/
theorem read_congr (h : ∀ k ∈ trail p, Alike t u k) (hfile : u.node? (place p) = t.node? (place p)) :
    t.read p = u.read p := by
  unfold read
  rw [locate_congr h]
  split
  · rfl
  next l hl =>
  rw [locate_eq hl, hfile]

theorem aim_congr (h : ∀ k ∈ trail p, Alike t u k) : t.aim p = u.aim p := by
  unfold aim
  split
  · rfl
  next ps hps =>
  have hpieces := pieces_eq hps
  split
  · rfl
  next last front hrev =>
  -- the front of the pieces leads through a part of the trail
  obtain ⟨-, behind, hbehind, -⟩ := dropWhile_reverse_eq_cons.1 hrev
  have hall : ∀ k ∈ along [] (ps.filterMap Component.ofPiece), Alike t u k := by
    rw [hpieces]
    exact fun k hk => h k (mem_trail_of_mem_along hk)
  have hfront : ∀ k ∈ along [] (front.reverse.filterMap Component.ofPiece), Alike t u k := by
    intro k hk
    apply hall
    rw [hbehind, List.filterMap_append]
    exact mem_along_append.2 (.inl hk)
  split
  · rw [follow_congr hall]
  · rw [follow_congr hfront]
    cases hfollow : u.follow [] front.reverse with
    | error e => rfl
    | ok parent =>
      refine (hfront parent ?_).bind _
      rw [follow_eq hfollow, foldl_walk_filterMap]
      exact foldl_mem_along _ _

/-- Whether a file can be written does not depend on what is not on its trail. -/
theorem write_congr (h : ∀ k ∈ trail p, Alike t u k) (content : Bytes) :
    (t.write p content).map (fun _ => ()) = (u.write p content).map fun _ => () := by
  unfold write
  rw [aim_congr h]
  cases haim : u.aim p with
  | error e => rfl
  | ok target =>
    cases target with
    | directory l => rfl
    | name parent name slash =>
      have hplace := h _ (place_mem_trail p)
      rw [(aim_name haim).2] at hplace
      cases slash
      · rcases ht : t.node? (parent ++ [name]) with _ | _ | old <;>
          rcases hu : u.node? (parent ++ [name]) with _ | _ | old' <;> simp_all [Alike, Except.map]
      · rfl

/-! ## What was followed -/

/-- What a path was followed through are directories; what it was followed to is there. -/
theorem directory_of_mem_along {ps : List String} (h : t.follow here ps = .ok l) :
    (t.node? l).isSome ∧
      ∀ k ∈ along here (ps.filterMap Component.ofPiece), k = l ∨ t.node? k = some .directory := by
  induction ps generalizing here with
  | nil =>
    obtain ⟨rfl, hthere⟩ := follow_nil_eq_ok.1 h
    exact ⟨hthere, fun k hk => .inl (by simpa [along] using hk)⟩
  | cons piece rest ih =>
    obtain ⟨hdir, -, hrest⟩ := follow_cons_eq_ok.1 h
    obtain ⟨hthere, hall⟩ := ih hrest
    refine ⟨hthere, fun k hk => ?_⟩
    rcases mem_along_cons.1 hk with rfl | hk
    · exact .inr hdir
    · exact hall k hk

/-- A path is followed where what it was followed through still are directories. -/
theorem follow_of_along {ps : List String}
    (hdir : ∀ k ∈ along here (ps.filterMap Component.ofPiece), t.node? k = some .directory →
      u.node? k = some .directory)
    (hl : (u.node? l).isSome) (h : t.follow here ps = .ok l) : u.follow here ps = .ok l := by
  induction ps generalizing here with
  | nil =>
    obtain ⟨rfl, -⟩ := follow_nil_eq_ok.1 h
    exact follow_nil_eq_ok.2 ⟨rfl, hl⟩
  | cons piece rest ih =>
    obtain ⟨hhere, hlen, hrest⟩ := follow_cons_eq_ok.1 h
    exact follow_cons_eq_ok.2 ⟨hdir _ (self_mem_along _ _) hhere, hlen,
      ih (fun k hk => hdir k (mem_along_cons.2 (.inr hk))) hrest⟩

/-- A directory that is there is reached through directories. -/
theorem directory_of_mem_trail (h : t.at? p = some .directory) (hk : k ∈ trail p) : t.node? k = some .directory := by
  obtain ⟨-, hfollow, hn⟩ := at?_eq_some.1 h
  rcases (directory_of_mem_along hfollow).2 k (mem_along_of_mem_trail hk) with rfl | hdir
  · exact hn
  · exact hdir

theorem isFile_of_read (h : t.read p = .ok content) : t.isFile p = true := by
  rw [isFile, read_eq_ok.1 h]

/-! ## Touched trees -/

/-- The one tree after files were written at `O` and directories were made at `W`. -/
structure Touched (O W : Location → Prop) (t u : FileTree) : Prop where
  entry : ∀ l, ¬ O l → u.node? l = t.node? l ∨ W l ∧ t.node? l = none ∧ u.node? l = some .directory
  directory : ∀ l, t.node? l = some .directory → u.node? l = some .directory
  file : ∀ l, O l → u.node? l = some .directory → t.node? l = some .directory
  links : u.links = t.links

namespace Touched

theorem refl (O W : Location → Prop) (t : FileTree) : Touched O W t t :=
  ⟨fun _ _ => .inl rfl, fun _ h => h, fun _ _ h => h, rfl⟩

theorem trans (h : Touched O W t u) (h' : Touched O W u v) : Touched O W t v where
  entry l hl := by
    rcases h.entry l hl with heq | ⟨hw, hnone, hdir⟩ <;> rcases h'.entry l hl with heq' | ⟨hw', hnone', hdir'⟩
    · exact .inl (heq'.trans heq)
    · exact .inr ⟨hw', heq ▸ hnone', hdir'⟩
    · exact .inr ⟨hw, hnone, heq'.trans hdir⟩
    · exact .inr ⟨hw, hnone, hdir'⟩
  directory l hl := h'.directory l (h.directory l hl)
  file l hl hdir := h.file l hl (h'.file l hl hdir)
  links := h'.links.trans h.links

/-- More places may have been touched, but no directory was made in the place of a file. -/
theorem mono (h : Touched O W t u) (hO : ∀ l, O l → O' l) (hW : ∀ l, W l → W' l)
    (hfile : ∀ l, O' l → u.node? l = some .directory → t.node? l = some .directory) : Touched O' W' t u where
  entry l hl := (h.entry l fun ho => hl (hO l ho)).imp id fun ⟨hw, rest⟩ => ⟨hW l hw, rest⟩
  directory := h.directory
  file := hfile
  links := h.links

/-- More places may have been touched, if no directory is made where a file may have been written. -/
theorem mono_of_apart (h : Touched O W t u) (hO : ∀ l, O l → O' l) (hW : ∀ l, W l → W' l)
    (hapart : ∀ l, ¬ O l → O' l → W l → t.node? l ≠ none) : Touched O' W' t u := by
  apply h.mono hO hW
  intro l hl hdir
  by_cases ho : O l
  · exact h.file l ho hdir
  · rcases h.entry l ho with heq | ⟨hw, hnone, -⟩
    · exact heq ▸ hdir
    · exact absurd hnone (hapart l ho hl hw)

/-- Where no directory was made, more places may have been touched. -/
theorem more (h : Touched O (fun _ => False) t u) (hO : ∀ l, O l → O' l) : Touched O' W t u :=
  h.mono_of_apart hO (fun _ hw => hw.elim) fun _ _ _ hw => hw.elim

/-- Away from the places that were touched nothing has changed. -/
theorem same (h : Touched O W t u) (ho : ¬ O l) (hw : W l → t.node? l ≠ none) : u.node? l = t.node? l := by
  rcases h.entry l ho with heq | ⟨hmade, hnone, -⟩
  · exact heq
  · exact absurd hnone (hw hmade)

theorem alone (h : Touched O W t u) (ha : t.Alone l) : u.Alone l := by
  unfold Alone
  rw [h.links]
  exact ha

theorem wellLinked (h : Touched O W t u) (hO : ∀ l, O l → t.Alone l) (hw : t.WellLinked) : u.WellLinked := by
  intro group hgroup l hl
  rw [h.links] at hgroup
  obtain ⟨content, hcontent⟩ := hw group hgroup l hl
  refine ⟨content, ?_⟩
  rw [h.same (fun ho => hO l ho group hgroup hl) fun _ => by simp [hcontent], hcontent]

end Touched

theorem touched_write {t t' : FileTree} (h : t.write p content = .ok t') (ha : t.Alone (place p)) :
    Touched (· = place p) (fun _ => False) t t' := by
  have hsame := sameBut_write h ha
  exact ⟨fun l hl => .inl (hsame.entry l hl), fun l => (hsame.directory l).2, fun l _ => (hsame.directory l).1,
    hsame.links⟩

/-- A path leads past some places: down through them perhaps, but neither to one nor out of one. -/
def Past (R : Location → Prop) (p : Path) : Prop := ∀ k ∈ trail p, R k → k <+: place p ∧ k ≠ place p

instance (R : Location → Prop) [DecidablePred R] (p : Path) : Decidable (Past R p) :=
  inferInstanceAs (Decidable (∀ k ∈ trail p, R k → k <+: place p ∧ k ≠ place p))

/-- A path that leads to no file that was written, and past the directories that were made, denotes what it
denoted before. -/
theorem at?_of_past (hp : t.Proper) (h : Touched O W t u) (hO : ¬ O (place p))
    (hW : Past (fun l => W l ∧ t.node? l = none) p) : u.at? p = t.at? p := by
  have hnode : u.node? (place p) = t.node? (place p) :=
    h.same hO fun hw hnone => (hW _ (place_mem_trail p) ⟨hw, hnone⟩).2 rfl
  apply Option.ext
  intro n
  rw [at?_eq_some, at?_eq_some, hnode]
  refine and_congr_right fun _ => ⟨fun ⟨hfollow, hn⟩ => ⟨?_, hn⟩, fun ⟨hfollow, hn⟩ => ⟨?_, hn⟩⟩
  · -- a new directory on the trail would lie above what is there, so it was there before
    refine follow_of_along (fun k hk hdir => ?_) (by rw [hn]; rfl) hfollow
    by_cases ho : O k
    · exact h.file k ho hdir
    · rcases h.entry k ho with heq | ⟨hw, hnone, -⟩
      · exact heq ▸ hdir
      · obtain ⟨hpre, hne⟩ := hW k (mem_trail_of_mem_along hk) ⟨hw, hnone⟩
        exact hp.above hn hpre hne
  · exact follow_of_along (fun k _ hdir => h.directory k hdir) (by rw [hnode, hn]; rfl) hfollow

end Bundler.FileTree
