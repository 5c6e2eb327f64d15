/-!
# What can be wrong with a JSON text

A `Problem` is a breach of the grammar, or a value that is not what its reader wants. An `Error` is a
problem with its place.
-/

namespace Bundler.Json

/-- What is wrong. -/
inductive Problem where
  | endInList
  | endInObject
  | endInString
  | endInValue
  | colonWanted
  | listGoesOn
  | objectGoesOn
  | wordWanted
  | valueWanted
  | badEscape
  | badNumber
  | greatNumber
  /-- The bytes of a string are no text. -/
  | brokenText
  /-- A surrogate that is not followed by an escape. -/
  | halfPair
  | loneSurrogate
  | controlCharacter
  | keyWanted
  | trailingComma
  | trailingCharacters
  /-- A value of another kind than the expected one. -/
  | otherKind (found expected : String)
  /-- A value of the right kind that is none of the expected ones. -/
  | otherValue (found expected : String)
  | otherLength (n : Nat) (expected : String)
  | unknownField (name : String) (known : List String)
  | unknownName (name : String) (known : List String)
  | missingField (name : String)
  | repeatedField (name : String)
  deriving DecidableEq, Repr

/-- A name between backquotes. -/
def ticked (name : String) : String := "`" ++ name ++ "`"

/-- The names that could stand in a place. -/
def oneOf : List String → String
  | [] => "there are no fields"
  | [a] => "expected " ++ ticked a
  | [a, b] => "expected " ++ ticked a ++ " or " ++ ticked b
  | names => "expected one of " ++ ", ".intercalate (names.map ticked)

/-- The text of a problem. -/
def Problem.message : Problem → String
  | .endInList => "EOF while parsing a list"
  | .endInObject => "EOF while parsing an object"
  | .endInString => "EOF while parsing a string"
  | .endInValue => "EOF while parsing a value"
  | .colonWanted => "expected `:`"
  | .listGoesOn => "expected `,` or `]`"
  | .objectGoesOn => "expected `,` or `\x7d`"
  | .wordWanted => "expected ident"
  | .valueWanted => "expected value"
  | .badEscape => "invalid escape"
  | .badNumber => "invalid number"
  | .greatNumber => "number out of range"
  | .brokenText => "invalid unicode code point"
  | .halfPair => "unexpected end of hex escape"
  | .loneSurrogate => "lone leading surrogate in hex escape"
  | .controlCharacter => "control character (\\u0000-\\u001F) found while parsing a string"
  | .keyWanted => "key must be a string"
  | .trailingComma => "trailing comma"
  | .trailingCharacters => "trailing characters"
  | .otherKind found expected => "invalid type: " ++ found ++ ", expected " ++ expected
  | .otherValue found expected => "invalid value: " ++ found ++ ", expected " ++ expected
  | .otherLength n expected => "invalid length " ++ toString n ++ ", expected " ++ expected
  | .unknownField name known => "unknown field " ++ ticked name ++ ", " ++ oneOf known
  | .unknownName name known => "unknown variant " ++ ticked name ++ ", " ++ oneOf known
  | .missingField name => "missing field " ++ ticked name
  | .repeatedField name => "duplicate field " ++ ticked name

/-- A problem and where it was met: the line, from one, and how many bytes of it were read. -/
structure Error where
  problem : Problem
  line : Nat
  column : Nat
  deriving DecidableEq, Repr

/-- The text of an error. -/
def Error.message (e : Error) : String :=
  e.problem.message ++ " at line " ++ toString e.line ++ " column " ++ toString e.column

end Bundler.Json
