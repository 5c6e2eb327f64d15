import Bundler.Cbor.Reader
import Bundler.FileTree
import Bundler.Json.Problem
/-!
# Causes of failures

What stands behind a failure of one of the program's own operations. A message ends in the text of
its cause; how a cause is worded is left to the caller, who may want the system's text or a short
name.
-/

namespace Bundler

/-- What made an operation fail. -/
inductive Cause where
  | io (error : IoError)
  /-- A file does not hold the expected JSON. -/
  | json (error : Json.Error)
  /-- A file does not hold the expected CBOR. -/
  | cbor (error : Cbor.Error)
  deriving DecidableEq, Repr

/-- The full text of a cause. -/
def Cause.message : Cause → String
  | .io e => e.message
  | .json e => e.message
  | .cbor e => e.message

end Bundler
