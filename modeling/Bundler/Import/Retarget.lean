import Bundler.Import.Scan
/-!
# Retargeting imports

`retarget` puts a new text in the place of import literals and leaves every other byte as it is.
-/

namespace Bundler

/-- The list without repetitions, each element at its first place. -/
def keepFirst {α : Type} [DecidableEq α] : List α → List α
  | [] => []
  | x :: rest => x :: (keepFirst rest).filter (· ≠ x)

namespace Import

/-- The source from `pos` on, which `rest` holds, with each span replaced by the text beside it. The
spans are increasing. -/
def splice (rest : Bytes) (pos : Nat) : List (Span × Option Bytes) → Bytes
  | [] => rest
  | (span, text) :: more =>
    let inside := rest.drop (span.start - pos)
    let length := span.stop - span.start
    rest.take (span.start - pos) ++ text.getD (inside.take length) ++
      splice (inside.drop length) span.stop more

/-- A retargeted source and the texts that were put into it. -/
structure Retargeted where
  source : Bytes
  imports : List String
  deriving DecidableEq, Repr

/-- Replaces each import by what `resolve` gives for its specifier; where it gives nothing the bytes
stay. The replacements are listed once each, in the order of their first use. -/
def retarget (resolve : String → Option String) (source : Bytes) : Retargeted :=
  let found := (scan source).map fun i => (i.span, resolve i.specifier)
  { source := splice source 0 (found.map fun (span, text) => (span, text.map Utf8.encode))
    imports := keepFirst (found.filterMap (·.2)) }

end Import
end Bundler
