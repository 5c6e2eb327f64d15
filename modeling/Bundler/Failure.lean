/-!
# Ways to break off

An operation that does not finish either reports an error, which its caller can handle, or panics,
which breaks off everything up to the task that it runs in.
-/

namespace Bundler

/-- What a panic carries: a text, or something that is none. -/
inductive Panic where
  | text (s : String)
  | unknown
  deriving DecidableEq, Repr

/-- How a panic is reported as the error of a task. -/
def Panic.message : Panic → String
  | .text s => "Task panicked: " ++ s
  | .unknown => "Task panicked with unknown payload"

/-- Why an operation did not finish. -/
inductive Failure (ε : Type) where
  | error (e : ε)
  | panic (p : Panic)
  deriving DecidableEq, Repr

/-- The same failure with another kind of error. -/
def Failure.map {ε δ : Type} (f : ε → δ) : Failure ε → Failure δ
  | .error e => .error (f e)
  | .panic p => .panic p

end Bundler
