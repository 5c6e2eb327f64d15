import Bundler.Text.Hex
/-!
# Writing JSON

Texts are quoted with the fewest escapes: quotes, backslashes and control characters. Arrays and
objects come on one line (`inlineArray`) or with one element a line and two spaces for each level
(`prettyArray`, `prettyObject`); the elements are given as they are written one level deeper.
-/

namespace Bundler.Json

/-- A character inside quotes. -/
def escape (c : Char) : List Char :=
  if c = '"' then ['\\', '"']
  else if c = '\\' then ['\\', '\\']
  else if c.toNat = 0x08 then ['\\', 'b']
  else if c.toNat = 0x09 then ['\\', 't']
  else if c.toNat = 0x0A then ['\\', 'n']
  else if c.toNat = 0x0C then ['\\', 'f']
  else if c.toNat = 0x0D then ['\\', 'r']
  else if c.toNat < 0x20 then
    ['\\', 'u', '0', '0', Hex.digit (c.toNat / 16), Hex.digit (c.toNat % 16)]
  else [c]

/-- A text in quotes. -/
def quote (s : String) : String := String.ofList ('"' :: s.toList.flatMap escape ++ ['"'])

/-- An array on one line. -/
def inlineArray (items : List String) : String := "[" ++ ",".intercalate items ++ "]"

/-- A new line at a nesting level. -/
def line (level : Nat) : String := "\n" ++ String.ofList (List.replicate (2 * level) ' ')

/-- Elements between two brackets, one on each line of the level below. -/
def block (opening closing : String) (level : Nat) (items : List String) : String :=
  if items = [] then opening ++ closing
  else
    opening ++ ",".intercalate (items.map fun item => line (level + 1) ++ item) ++ line level ++
      closing

/-- An array with one element a line. -/
def prettyArray (level : Nat) (items : List String) : String := block "[" "]" level items

/-- An object with one member a line. -/
def prettyObject (level : Nat) (members : List (String × String)) : String :=
  block "\x7b" "\x7d" level (members.map fun (key, value) => quote key ++ ": " ++ value)

end Bundler.Json
