import Bundler.Proofs.Path.Canonical
import Bundler.Proofs.Resolve.Answers
import Mathlib.Data.List.Basic
/-!
# The paths that come out of the resolver

From a directory that is given relative to the root, what the resolver looks up is relative to the root and in normal
form (`candidate_relative`, `spellings_relative`). What it answers is in normal form as well, and a file that it answers
is found again from the root (`resolve_relative`). But it is relative only where no package description has named an
absolute path for its main file: the resolver hands such a path out as it is.
-/

namespace Bundler

variable {t : FileTree} {root base dir p q : Path} {specifier main : String}

namespace Text

theorem head?_trimLeading (c : Char) (text : String) : (trimLeading c text).toList.head? ≠ some c := by
  rw [trimLeading, String.toList_ofList]
  intro hhead
  have hdrop := List.head?_dropWhile_not (fun x => decide (x = c)) text.toList
  rw [hhead] at hdrop
  simp at hdrop

theorem trimLeading_eq {c : Char} {text : String} (h : text.toList.head? ≠ some c) : trimLeading c text = text := by
  have hdrop : text.toList.dropWhile (fun x => decide (x = c)) = text.toList := by
    cases htext : text.toList with
    | nil => rfl
    | cons first rest =>
      rw [htext, List.head?_cons, Ne, Option.some_inj] at h
      exact List.dropWhile_cons_of_neg (by simpa using h)
  rw [trimLeading, hdrop, String.ofList_toList]

theorem startsWith_iff {needle text : String} : startsWith needle text = true ↔ needle.toList <+: text.toList :=
  List.isPrefixOf_iff_prefix

end Text

namespace Resolve

/-- A path that is not absolute and has nothing to resolve. -/
structure Relative (p : Path) : Prop where
  relative : p.isAbsolute = false
  normal : p.normalize = p

theorem relative_normalize (h : p.isAbsolute = false) : Relative p.normalize :=
  ⟨p.isAbsolute_normalize.trans h, p.normalize_normalize⟩

/-! ## What is looked up -/

/-- No slash at the beginning of a specifier leads out of the directory that it is used in. -/
theorem candidate_relative (hbase : base.isAbsolute = false) (specifier : String) :
    Relative (candidate base specifier) := by
  unfold candidate
  split
  · have htrimmed : (Path.mk (Text.trimLeading '/' specifier)).isAbsolute = false :=
      beq_eq_false_iff_ne.2 (Text.head?_trimLeading '/' specifier)
    exact relative_normalize ((Path.isAbsolute_join htrimmed).trans hbase)
  · next hpath =>
    have hname : (Path.mk specifier).isAbsolute = false := by
      rw [← Bool.not_eq_true]
      intro habs
      obtain ⟨rest, hrest⟩ := List.head?_eq_some_iff.1 (beq_iff_eq.1 habs)
      have hslash : Text.startsWith "/" specifier = true := Text.startsWith_iff.2 ⟨rest, hrest.symm⟩
      rw [isPath, hslash, Bool.or_true] at hpath
      exact hpath rfl
    exact relative_normalize ((Path.isAbsolute_join hname).trans rfl)

/-- An extension becomes part of the last name. -/
theorem spellings_relative (h : Relative q) : ∀ p ∈ spellings q, Relative p := by
  have hextension (ext : String) (hhead : ("." ++ ext).toList.head? ≠ some '/') (hslash : '/' ∉ ("." ++ ext).toList)
      (hlen : 2 < ("." ++ ext).toList.length) : Relative ⟨q.text ++ "." ++ ext⟩ := by
    rw [String.append_assoc]
    exact ⟨(Path.isAbsolute_append q hhead).trans h.relative, Path.normalize_append h.normal h.relative hslash hlen⟩
  rw [spellings, List.forall_mem_cons]
  refine ⟨h, fun p hp => ?_⟩
  obtain ⟨ext, hext, rfl⟩ := List.mem_map.1 hp
  have hall : ∀ ext ∈ scriptExtensions, ("." ++ ext).toList.head? ≠ some '/' ∧ '/' ∉ ("." ++ ext).toList ∧
      2 < ("." ++ ext).toList.length := by decide
  obtain ⟨hhead, hslash, hlen⟩ := hall ext hext
  exact hextension ext hhead hslash hlen

/-! ## What is answered -/

/-- The specifier leads to a directory that names an absolute path for its main file. -/
def AbsoluteMain (t : FileTree) (root base : Path) (specifier main : String) : Prop :=
  ∃ dir, probe t root (candidate base specifier) = some (dir, .directory) ∧ NamesMain t root dir main ∧
    (Path.mk main).isAbsolute = true

theorem mainOf_relative (hdir : dir.isAbsolute = false) (h : mainOf t root dir = .ok p) :
    p.normalize = p ∧
      (p.isAbsolute = true ↔ ∃ main, NamesMain t root dir main ∧ (Path.mk main).isAbsolute = true) ∧
      ∀ main, NamesMain t root dir main → (Path.mk main).isAbsolute = true → p = (Path.mk main).normalize := by
  rcases of_mainOf h with ⟨main, hnames, rfl⟩ | ⟨hnone, rfl⟩
  · refine ⟨Path.normalize_normalize _, ⟨fun habs => ⟨main, hnames, ?_⟩, ?_⟩, ?_⟩
    · rw [Path.isAbsolute_normalize] at habs
      by_contra hmain
      rw [Path.isAbsolute_join (by simpa using hmain), hdir] at habs
      cases habs
    · rintro ⟨other, hother, habs⟩
      cases hnames.unique hother
      rw [Path.isAbsolute_normalize, Path.join, if_pos habs]
      exact habs
    · intro other hother habs
      cases hnames.unique hother
      rw [Path.join, if_pos habs]
  · refine ⟨Path.normalize_normalize _, ⟨fun habs => ?_, ?_⟩, fun main hmain => absurd hmain (hnone main)⟩
    · rw [Path.isAbsolute_normalize, Path.isAbsolute_join rfl, hdir] at habs
      cases habs
    · rintro ⟨main, hmain, -⟩
      exact absurd hmain (hnone main)

/-- From the root, a relative path is looked up as it is. -/
theorem candidate_here {here : Path} (hhere : here.normalize = ⟨""⟩) (hp : Relative p) :
    candidate here ("./" ++ p.text) = p := by
  have hpath : isPath ("./" ++ p.text) = true := by
    have hdot : Text.startsWith "./" ("./" ++ p.text) = true :=
      Text.startsWith_iff.2 ⟨p.text.toList, (String.toList_append ..).symm⟩
    rw [isPath, hdot, Bool.true_or, Bool.true_or]
  have htrim : Text.trimLeading '/' ("./" ++ p.text) = "./" ++ p.text := by
    refine Text.trimLeading_eq ?_
    rw [String.toList_append]
    exact (by decide : some '.' ≠ some '/')
  have hjoin : (Path.mk ".").join p = ⟨"./" ++ p.text⟩ := Path.eq_of_text (Path.text_join hp.relative)
  have hdot : (here.join ⟨"."⟩).normalize = ⟨""⟩ := by
    rw [← Path.normalize_join, hhere]
    decide
  have hempty : (Path.mk "").join p = p := Path.eq_of_text (by simp [Path.text_join hp.relative])
  rw [candidate, if_pos hpath, htrim, ← hjoin, ← Path.join_assoc, ← Path.normalize_join, hdot, hempty, hp.normal]

end Resolve

open Resolve

/-- What the resolver answers is in normal form. It is relative to the root unless a package description names an
absolute path, and then it is that path. A file below the root is found again under its path from the root. -/
theorem resolve_relative (hbase : base.isAbsolute = false) (h : resolve t root base specifier = .ok p) :
    p.normalize = p ∧
      (p.isAbsolute = true ↔ ∃ main, AbsoluteMain t root base specifier main) ∧
      (∀ main, AbsoluteMain t root base specifier main → p = (Path.mk main).normalize) ∧
      (p.isAbsolute = false → t.isFile (root.join p) = true → ∀ here, here.normalize = ⟨""⟩ →
        resolve t root here ("./" ++ p.text) = .ok p) := by
  have hspelled {node : Node} {q : Path} (hq : probe t root (candidate base specifier) = some (q, node)) : Relative q :=
    spellings_relative (candidate_relative hbase specifier) q (of_probe hq).1
  have hagain (hnormal : p.normalize = p) (hrelative : p.isAbsolute = false) (hfile : t.isFile (root.join p) = true)
      (here : Path) (hhere : here.normalize = ⟨""⟩) : resolve t root here ("./" ++ p.text) = .ok p :=
    resolve_of_file (candidate_here hhere ⟨hrelative, hnormal⟩) hfile
  rcases of_resolve h with ⟨content, hfound⟩ | ⟨dir, hdir, hmainOf⟩
  · have hp := hspelled hfound
    have hstays (main : String) : ¬ AbsoluteMain t root base specifier main := by
      rintro ⟨dir, hdir, -⟩
      rw [hfound] at hdir
      cases hdir
    refine ⟨hp.normal, ⟨fun habs => ?_, fun ⟨main, hmain⟩ => absurd hmain (hstays main)⟩,
      fun main hmain => absurd hmain (hstays main), hagain hp.normal⟩
    rw [hp.relative] at habs
    cases habs
  · obtain ⟨hnormal, habs, hmain⟩ := mainOf_relative (hspelled hdir).relative hmainOf
    have hnamed (main : String) : AbsoluteMain t root base specifier main ↔
        NamesMain t root dir main ∧ (Path.mk main).isAbsolute = true := by
      refine ⟨?_, fun hnames => ⟨dir, hdir, hnames⟩⟩
      rintro ⟨dir', hdir', hnames⟩
      rw [hdir] at hdir'
      cases hdir'
      exact hnames
    simp only [hnamed, and_imp]
    exact ⟨hnormal, habs, hmain, hagain hnormal⟩

/-- A package that names its main file with a slash in front. -/
def slashedMain : FileTree :=
  ⟨[(["w"], .directory), (["w", "src"], .directory), (["w", "src", "p"], .directory),
    (["w", "src", "p", "index.js"], .file []),
    (["w", "src", "p", "package.json"], .file (Utf8.encode "\x7b\"main\":\"/index.js\"\x7d"))], [], []⟩

/-- Through its description the package leads out of the root. Its script on its own is found, and found again. -/
theorem resolve_slashedMain :
    (resolve slashedMain ⟨"/w"⟩ ⟨"src"⟩ "./p" = .ok ⟨"/index.js"⟩ ∧
      ∃ main, AbsoluteMain slashedMain ⟨"/w"⟩ ⟨"src"⟩ "./p" main) ∧
    resolve slashedMain ⟨"/w"⟩ ⟨"src"⟩ "./p/index" = .ok ⟨"src/p/index.js"⟩ ∧
      resolve slashedMain ⟨"/w"⟩ ⟨""⟩ "./src/p/index.js" = .ok ⟨"src/p/index.js"⟩ := by
  have hout : resolve slashedMain ⟨"/w"⟩ ⟨"src"⟩ "./p" = .ok ⟨"/index.js"⟩ := by decide
  have hin : resolve slashedMain ⟨"/w"⟩ ⟨"src"⟩ "./p/index" = .ok ⟨"src/p/index.js"⟩ := by decide
  obtain ⟨-, habs, -, -⟩ := resolve_relative rfl hout
  obtain ⟨-, -, -, hagain⟩ := resolve_relative rfl hin
  exact ⟨⟨hout, habs.1 rfl⟩, hin, hagain rfl (by decide) ⟨""⟩ rfl⟩

end Bundler
