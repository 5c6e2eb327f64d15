import Bundler.Proofs.Compile.File
import Bundler.Proofs.FileTree.Trail
import Bundler.Proofs.Resolve.Answers
/-!
# What the resolver looks at

The resolver looks at a few paths and nothing else: the spellings of a candidate up to the first one that
exists, and the description of a package (`probed`). So a specifier names the same module after a tree was
touched elsewhere (`moduleOf_congr`, `moduleOf_eq`).
-/

namespace Bundler

open FileTree

namespace Resolve

variable {t u : FileTree} {root base dir p : Path} {ps : List Path} {specifier : String} {O W : Location → Prop}

/-- The paths that are looked up one after the other, up to the first one that exists. -/
def tried (t : FileTree) (root : Path) : List Path → List Path
  | [] => []
  | p :: rest => p :: if t.contains (root.join p) then [] else tried t root rest

/-- All paths that are looked up for a specifier. -/
def probed (t : FileTree) (root base : Path) (specifier : String) : List Path :=
  tried t root (spellings (candidate base specifier)) ++
    match probe t root (candidate base specifier) with
    | some (dir, .directory) => [dir.join packageFile]
    | _ => []

theorem mem_probed_of_tried (h : p ∈ tried t root (spellings (candidate base specifier))) :
    p ∈ probed t root base specifier := by
  rw [probed, List.mem_append]
  exact .inl h

theorem description_mem_probed (h : probe t root (candidate base specifier) = some (dir, .directory)) :
    dir.join packageFile ∈ probed t root base specifier := by
  rw [probed, List.mem_append, h]
  exact .inr List.mem_cons_self

theorem tried_subset (t : FileTree) (root : Path) (ps : List Path) : tried t root ps ⊆ ps := by
  induction ps with
  | nil => exact List.Subset.refl _
  | cons p rest ih =>
    rw [tried]
    split
    · simp
    · exact List.cons_subset_cons p ih

/-- Whatever there is, a specifier is looked up under its spellings and in descriptions of packages there. -/
theorem mem_of_mem_probed (h : p ∈ probed t root base specifier) :
    p ∈ spellings (candidate base specifier) ++
      (spellings (candidate base specifier)).map fun dir => dir.join packageFile := by
  rw [probed, List.mem_append] at h
  rw [List.mem_append]
  rcases h with h | h
  · exact .inl (tried_subset _ _ _ h)
  · right
    split at h
    · next dir hdir => exact List.mem_map.2 ⟨dir, (of_probe hdir).1, (List.mem_singleton.1 h).symm⟩
    · cases h

theorem findSome?_congr (h : ∀ p ∈ tried t root ps, u.at? (root.join p) = t.at? (root.join p)) :
    ps.findSome? (fun p => (u.at? (root.join p)).map fun node => (p, node)) =
      ps.findSome? fun p => (t.at? (root.join p)).map fun node => (p, node) := by
  induction ps with
  | nil => rfl
  | cons p rest ih =>
    rw [List.findSome?_cons, List.findSome?_cons, h p List.mem_cons_self]
    cases hp : t.at? (root.join p) with
    | some node => rfl
    | none =>
      have hmissing : t.contains (root.join p) = false := by rw [FileTree.contains, hp]; rfl
      rw [tried, hmissing, if_neg Bool.false_ne_true, List.forall_mem_cons] at h
      exact ih h.2

theorem tried_congr (h : ∀ p ∈ tried t root ps, u.at? (root.join p) = t.at? (root.join p)) :
    tried u root ps = tried t root ps := by
  induction ps with
  | nil => rfl
  | cons p rest ih =>
    have hp : u.contains (root.join p) = t.contains (root.join p) := by
      rw [FileTree.contains, FileTree.contains, h p List.mem_cons_self]
    rw [tried, tried, hp]
    by_cases hthere : t.contains (root.join p) = true
    · rw [if_pos hthere, if_pos hthere]
    · rw [if_neg hthere, if_neg hthere, ih]
      intro q hq
      apply h
      rw [tried, if_neg hthere]
      exact List.mem_cons_of_mem _ hq

theorem probe_congr {candidate : Path}
    (h : ∀ p ∈ tried t root (spellings candidate), u.at? (root.join p) = t.at? (root.join p)) :
    probe u root candidate = probe t root candidate := findSome?_congr h

theorem components_description (p : Path) :
    (p.join packageFile).components = p.components ++ [.name "package.json"] := by
  have hspelled : Spelled ["package.json"] := by
    intro name hname
    rw [List.mem_singleton.1 hname]
    exact ⟨⟨by decide, by decide, by decide⟩, by decide⟩
  have hfile : packageFile = ⟨"/".intercalate ["package.json"]⟩ := by
    rw [String.intercalate_singleton]
    rfl
  rw [hfile, components_join_names p (List.cons_ne_nil _ _) hspelled]
  rfl

/-- In a directory that stays a description is read as before, if it was not touched. -/
theorem read_description_congr (h : Touched O W t u) (hdir : t.at? (root.join dir) = some .directory)
    (hO : ¬ O (place (root.join (dir.join packageFile))))
    (hW : Past (fun l => W l ∧ t.node? l = none) (root.join (dir.join packageFile))) :
    u.read (root.join (dir.join packageFile)) = t.read (root.join (dir.join packageFile)) := by
  have hsame := h.same hO fun hw hnone => (hW _ (place_mem_trail _) ⟨hw, hnone⟩).2 rfl
  refine (read_congr (fun k hk => ?_) hsame).symm
  have hcomponents : (root.join (dir.join packageFile)).components =
      (root.join dir).components ++ [.name "package.json"] := by
    rw [← Path.join_assoc, components_description]
  have hplace : place (root.join (dir.join packageFile)) = place (root.join dir) ++ ["package.json"] := by
    rw [place_eq_foldl, hcomponents, List.foldl_append, ← place_eq_foldl]
    rfl
  rw [trail, hcomponents, mem_along_append, ← place_eq_foldl] at hk
  rcases hk with hk | hk
  · have hk := directory_of_mem_trail hdir hk
    exact .of_directory hk (h.directory k hk)
  · rw [show [Path.Component.name "package.json"] = ["package.json"].map .name from rfl, mem_along_names] at hk
    obtain ⟨part, hpart, rfl⟩ := hk
    rcases List.prefix_concat_iff.1 (show part <+: [] ++ ["package.json"] from hpart) with rfl | hnil
    · rw [List.nil_append, ← hplace]
      exact .of_eq hsame
    · rw [List.prefix_nil.1 hnil, List.append_nil]
      have htop := directory_of_mem_trail hdir (place_mem_trail _)
      exact .of_directory htop (h.directory _ htop)

theorem mainOf_congr (h : u.read (root.join (dir.join packageFile)) = t.read (root.join (dir.join packageFile))) :
    mainOf u root dir = mainOf t root dir := by
  unfold mainOf
  dsimp only
  rw [h]

end Resolve

section Congruence

open Resolve

variable {t u v : FileTree} {root base : Path} {specifier : String} {O W : Location → Prop}

/-- A specifier names the same module in a tree that was touched elsewhere than where it is looked up. -/
theorem moduleOf_congr (hp : t.Proper) (h : Touched O W t u)
    (hO : ∀ p ∈ probed t root base specifier, ¬ O (place (root.join p)))
    (hW : ∀ p ∈ probed t root base specifier, Past (fun l => W l ∧ t.node? l = none) (root.join p)) :
    moduleOf u root base specifier = moduleOf t root base specifier := by
  have hprobe : probe u root (candidate base specifier) = probe t root (candidate base specifier) := by
    apply probe_congr
    intro p hmem
    have hmem := mem_probed_of_tried hmem
    exact at?_of_past hp h (hO p hmem) (hW p hmem)
  have hresolve : resolve u root base specifier = resolve t root base specifier := by
    unfold resolve
    rw [hprobe]
    split
    · rfl
    · next dir hdir =>
      have hmem := description_mem_probed hdir
      exact mainOf_congr (read_description_congr h (of_probe hdir).2 (hO _ hmem) (hW _ hmem))
    · rfl
  unfold moduleOf
  rw [hresolve]

/-- What was touched elsewhere than where a specifier is looked up now was touched elsewhere than where it was
looked up before: the paths are the same. -/
theorem probed_eq (hp : t.Proper) (h : Touched O W t u)
    (hO : ∀ p ∈ probed u root base specifier, ¬ O (place (root.join p)))
    (hW : ∀ p ∈ probed u root base specifier, Past (fun l => W l ∧ t.node? l = none) (root.join p)) :
    probed t root base specifier = probed u root base specifier := by
  have hat : ∀ p ∈ tried u root (spellings (candidate base specifier)), t.at? (root.join p) = u.at? (root.join p) := by
    intro p hmem
    have hmem := mem_probed_of_tried hmem
    exact (at?_of_past hp h (hO p hmem) (hW p hmem)).symm
  unfold probed
  rw [tried_congr hat, probe_congr hat]

/-- Two trees that were touched elsewhere than where a specifier is looked up in one of them give it the same
module. -/
theorem moduleOf_eq (hp : t.Proper) (h : Touched O W t u) (h' : Touched O W t v)
    (hO : ∀ p ∈ probed u root base specifier, ¬ O (place (root.join p)))
    (hW : ∀ p ∈ probed u root base specifier, Past (fun l => W l ∧ t.node? l = none) (root.join p)) :
    moduleOf v root base specifier = moduleOf u root base specifier := by
  have heq := probed_eq hp h hO hW
  rw [← heq] at hO hW
  have here := moduleOf_congr hp h hO hW
  have there := moduleOf_congr hp h' hO hW
  exact there.trans here.symm

end Congruence

end Bundler
