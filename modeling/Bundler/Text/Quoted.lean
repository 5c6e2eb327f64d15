import Bundler.Text.Hex
import Bundler.Text.Hidden
/-!
# Quoted text in diagnostics

A text between double quotes on one line, so that two different texts never look the same: line
ends, tabs, quotes and backslashes are escaped, and hidden characters are written by number.
-/

namespace Bundler.Text

/-- A character inside quotes. -/
def showChar (c : Char) : List Char :=
  if c.toNat = 0 then ['\\', '0']
  else if c = '\t' then ['\\', 't']
  else if c = '\r' then ['\\', 'r']
  else if c = '\n' then ['\\', 'n']
  else if c = '\\' then ['\\', '\\']
  else if c = '"' then ['\\', '"']
  else if isHidden c then
    ['\\', 'u', '\x7b'] ++ (Hex.ofNat c.toNat).toList ++ ['\x7d']
  else [c]

/-- A text in quotes. -/
def quoted (s : String) : String := String.ofList ('"' :: s.toList.flatMap showChar ++ ['"'])

/-- A list of shown elements. -/
def shownList (items : List String) : String := "[" ++ ", ".intercalate items ++ "]"

end Bundler.Text
