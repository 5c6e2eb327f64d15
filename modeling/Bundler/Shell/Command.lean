import Bundler.Shell.Pattern
/-!
# Commands of the shell language

What a script means before anything in it is expanded: words with their quoting, redirections, and
commands that are simple, joined, or built from others.
-/

namespace Bundler.Shell

/-- What becomes of the value of a parameter. Where a form has a condition, `ifEmpty` says that an
empty value counts like none. -/
inductive Form where
  | plain
  | length
  | orElse (ifEmpty : Bool)
  | assign (ifEmpty : Bool)
  | instead (ifEmpty : Bool)
  | complain (ifEmpty : Bool)
  | trim (cut : Cut)
  /-- No form that there is. -/
  | bad
  deriving DecidableEq, Repr

/-- How a redirection opens its file. -/
inductive OpenMode where
  | read
  | write
  /-- Like `write`, also where files are protected. -/
  | overwrite
  | append
  | both
  deriving DecidableEq, Repr

mutual

/-- A part of a word. -/
inductive Part where
  | text (s : Octets) (quoted : Bool)
  /-- A quote: a word with one is a field even if nothing is in it. -/
  | quote
  | parameter (name : String) (form : Form) (word : List Part) (quoted : Bool)
  /-- What a command writes. -/
  | output (command : Command) (quoted : Bool)
  /-- The value of an arithmetic expression. -/
  | value (expression : List Part) (quoted : Bool)

/-- A change of where a stream goes. -/
inductive Redirect where
  | file (stream : Nat) (mode : OpenMode) (name : List Part)
  /-- The stream becomes a copy of another one, or is closed. -/
  | copy (stream : Nat) (source : List Part)
  /-- The stream reads a document in the script. -/
  | document (stream : Nat) (number : Nat)

/-- Patterns and what is done for them. -/
inductive Arm where
  | arm (patterns : List (List Part)) (body : Command)

/-- A command. -/
inductive Command where
  | nothing
  | simple (line : Nat) (assignments : List (String × List Part)) (words : List (List Part))
      (redirects : List Redirect)
  | pipeline (commands : List Command)
  | background (command : Command)
  | sequence (first second : Command)
  | both (first second : Command)
  | either (first second : Command)
  | negate (command : Command)
  | subshell (line : Nat) (body : Command) (redirects : List Redirect)
  | group (line : Nat) (body : Command) (redirects : List Redirect)
  | branch (condition yes no : Command)
  | loop (wanted : Bool) (condition body : Command)
  | each (line : Nat) (name : String) (words : List (List Part)) (body : Command)
  | select (line : Nat) (subject : List Part) (arms : List Arm)
  | define (name : String) (body : Command)

end

/-- A word: parts without blanks between them. -/
abbrev Word := List Part

/-- Whether a character can begin a variable name. -/
def isNameStart (c : Char) : Bool := c.isAlpha || c == '_'

/-- Whether a character can stand in a variable name. -/
def isNameChar (c : Char) : Bool := c.isAlphanum || c == '_'

/-- Whether a text is a variable name. -/
def isName (s : List Char) : Bool := s.head?.any isNameStart && s.all isNameChar

/-- The text of a word in which nothing is quoted and nothing has to be expanded. -/
def Word.plain? (w : Word) : Option Octets :=
  match w with
  | [.text s false] => some s
  | _ => none

/-- The name and value of a word that has the form of an assignment. -/
def Word.assignment? (w : Word) : Option (String × Word) :=
  match w with
  | .text s false :: rest =>
    let name := s.takeWhile isNameChar
    match s.drop name.length with
    | '=' :: value =>
      if isName name then
        some (String.ofList name, if value.isEmpty then rest else .text value false :: rest)
      else none
    | _ => none
  | _ => none

/-- Adds a character in front of a word. -/
def Word.cons (c : Char) (quoted : Bool) (w : Word) : Word :=
  match w with
  | .text s q :: rest =>
    if q = quoted then .text (c :: s) q :: rest else .text [c] quoted :: .text s q :: rest
  | _ => .text [c] quoted :: w

end Bundler.Shell
