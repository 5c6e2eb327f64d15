import Bundler.Proofs.Import.Leftmost
import Bundler.Proofs.Import.Retarget
/-!
# What retargeting leaves as it is

The spans of its imports cut a source into stretches. A retargeted source has the same stretches in the same order, with
another text between two of them where the resolver gave one (`retarget_exact`).
-/

namespace Bundler.Import

variable {source : Bytes} {imports : List Import} {p pos : Nat} {spans : List Span}

/-- The stretches of a source from a position on: between some spans, and behind the last of them. -/
def stretches (source : Bytes) (pos : Nat) : List Span → List Bytes
  | [] => [source.drop pos]
  | s :: more => slice source pos s.start :: stretches source s.stop more

/-- Stretches with a text between each two of them. -/
def weave : List Bytes → List Bytes → Bytes
  | stretch :: stretches, text :: texts => stretch ++ (text ++ weave stretches texts)
  | stretches, _ => stretches.flatten

/-- The spans follow each other from a position on. -/
def InOrder (pos : Nat) : List Span → Prop
  | [] => True
  | s :: more => pos ≤ s.start ∧ s.start ≤ s.stop ∧ InOrder s.stop more

theorem Leftmost.inOrder (h : Leftmost source p imports) (hpos : pos ≤ textStart p) :
    InOrder pos (imports.map (·.span)) := by
  induction h generalizing pos with
  | absent => trivial
  | unclosed => trivial
  | @literal p i j _ _ hopens hcloses _ ih =>
    have hstart : textStart p ≤ textStart i := textStart_le hopens.least.1.1
    have hnext : j ≤ textStart (j + 1) := (Nat.le_succ j).trans (lt_textStart (j + 1)).le
    exact ⟨hpos.trans hstart, hcloses.1.1, ih hnext⟩

theorem slice_append_drop {start stop : Nat} (h : start ≤ stop) (source : Bytes) :
    slice source start stop ++ source.drop stop = source.drop start := by
  have hdrop : (source.drop start).drop (stop - start) = source.drop stop := by
    rw [List.drop_drop, Nat.add_sub_cancel' h]
  rw [slice, ← hdrop, List.take_append_drop]

/-- With its own bytes between them the stretches are the source. -/
theorem weave_stretches (source : Bytes) (h : InOrder pos spans) :
    weave (stretches source pos spans) (spans.map (·.of source)) = source.drop pos := by
  induction spans generalizing pos with
  | nil => exact List.append_nil _
  | cons s more ih =>
    obtain ⟨hstart, hstop, hmore⟩ := h
    rw [stretches, List.map_cons, weave, ih hmore, Span.of, slice_append_drop hstop, slice_append_drop hstart]

/-- Splicing puts the new texts between the stretches. -/
theorem splice_stretches (source : Bytes) (found : List (Span × Option Bytes)) (h : InOrder pos (found.map Prod.fst)) :
    splice (source.drop pos) pos found =
      weave (stretches source pos (found.map Prod.fst)) (found.map fun x => x.2.getD (x.1.of source)) := by
  induction found generalizing pos with
  | nil => exact (List.append_nil _).symm
  | cons x found ih =>
    obtain ⟨s, text⟩ := x
    obtain ⟨hstart, hstop, hmore⟩ := h
    have hinside : (source.drop pos).drop (s.start - pos) = source.drop s.start := by
      rw [List.drop_drop, Nat.add_sub_cancel' hstart]
    have hbehind : (source.drop s.start).drop (s.stop - s.start) = source.drop s.stop := by
      rw [List.drop_drop, Nat.add_sub_cancel' hstop]
    rw [splice, hinside, hbehind, ih hmore, List.append_assoc]
    rfl

/-- The texts that a resolver gives for the imports of a source, one for each import that it knows. -/
def replacements (resolve : String → Option String) (source : Bytes) : List String :=
  (scan source).filterMap fun i => resolve i.specifier

/-- A retargeted source is woven of the stretches between the imports of the source, with the bytes that the resolver
gives in the place of a specifier, and the specifier's own bytes where it gives none. What was put in is listed once,
where it was first used. The scanner reads all of it back exactly when no text that was put in has its literal's quote
in it. -/
theorem retarget_exact (resolve : String → Option String) (source : Bytes) :
    weave (stretches source 0 ((scan source).map (·.span))) ((scan source).map (·.span.of source)) = source ∧
      (retarget resolve source).source = weave (stretches source 0 ((scan source).map (·.span)))
        ((scan source).map fun i => ((resolve i.specifier).map Utf8.encode).getD (i.span.of source)) ∧
      (∀ s, s ∈ (retarget resolve source).imports ↔ s ∈ replacements resolve source) ∧
      (retarget resolve source).imports.Nodup ∧
      (retarget resolve source).imports.Pairwise
        (fun a b => (replacements resolve source).idxOf a < (replacements resolve source).idxOf b) ∧
      (specifiers (retarget resolve source).source =
          (specifiers source).map (fun specifier => (resolve specifier).getD specifier) ↔ Quotable resolve source) := by
  have horder : InOrder 0 ((scan source).map (·.span)) := (leftmost_scan source).inOrder (Nat.zero_le _)
  have hlisted : (retarget resolve source).imports = keepFirst (replacements resolve source) := by
    unfold retarget replacements
    dsimp only
    rw [List.filterMap_map]
    rfl
  have hpairwise := pairwise_keepFirst (replacements resolve source)
  refine ⟨?_, ?_, fun s => by rw [hlisted, mem_keepFirst], ?_, hlisted ▸ hpairwise,
    (specifiers_retarget_iff resolve source).1⟩
  · have hself := weave_stretches source horder
    rwa [List.map_map] at hself
  · let found := (scan source).map fun i => (i.span, (resolve i.specifier).map Utf8.encode)
    have hfound : InOrder 0 (found.map Prod.fst) := by rwa [List.map_map]
    have hsplice := splice_stretches source found hfound
    rw [List.map_map, List.map_map] at hsplice
    unfold retarget
    dsimp only
    rw [List.map_map]
    exact hsplice
  · rw [hlisted]
    exact hpairwise.imp fun hlt heq => absurd (heq ▸ hlt) (Nat.lt_irrefl _)

end Bundler.Import
