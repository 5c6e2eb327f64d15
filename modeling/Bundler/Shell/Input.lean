import Bundler.Shell.Command
/-!
# Reading from a script

A script is read from an `Input`: its characters, the tokens that were looked at, and the documents
that redirections read, which stand in the lines behind their command and are kept by number.
-/

namespace Bundler.Shell

/-- A word or a sign of the language. -/
inductive Token where
  | word (w : Word)
  | keyword (s : String)
  /-- A sign; a line break is one. -/
  | sign (s : String)
  /-- A redirection without its target. -/
  | arrow (stream : Nat) (sign : String)
  | finish

/-- A document whose lines have not come yet. -/
structure Pending where
  number : Nat
  delimiter : Octets
  /-- Nothing in the document is expanded. -/
  literal : Bool
  /-- Leading tabs are dropped. -/
  tabs : Bool

/-- A text that took the place of an alias in front of the rest of the input. -/
structure Pushed where
  name : String
  /-- How many characters are left behind the text. -/
  behind : Nat
  /-- The text ends in a blank, so that the next word may be an alias, too. -/
  blank : Bool

/-- A script that is being read. -/
structure Input where
  rest : Octets
  line : Nat
  /-- A token that was looked at and not taken. -/
  held : Option Token
  pending : List Pending
  documents : Array Word
  aliases : List (String × Octets)
  pushed : List Pushed
  /-- How many characters were left at the start of the last token, if texts were pushed. -/
  start : Nat
  /-- The last token may be an alias, wherever it stands. -/
  follows : Bool
  /-- What is read stands in a document. -/
  inDocument : Bool
  /-- The last word that was read. -/
  lastWord : Word

/-- Reading from an input; it fails with what is wrong. -/
abbrev Read := ExceptT String (StateM Input)

/-! ## Characters -/

/-- Drops line breaks that a backslash hides, and counts them. -/
def dropJoins : Octets → Nat × Octets
  | '\\' :: '\n' :: rest =>
    let (n, rest) := dropJoins rest
    (n + 1, rest)
  | rest => (0, rest)

/-- The next character, which is not taken. -/
def peekRaw : Read (Option Char) := do return (← get).rest.head?

/-- The next character behind hidden line breaks, which is not taken. -/
def peek : Read (Option Char) := do
  let input ← get
  let (n, rest) := dropJoins input.rest
  set { input with rest, line := input.line + n }
  return rest.head?

/-- Takes a character. -/
def skip : Read Unit :=
  modify fun input =>
    match input.rest with
    | [] => input
    | c :: rest => { input with rest, line := if c == '\n' then input.line + 1 else input.line }

/-- Takes the next character if it is a given one. -/
def takes (c : Char) : Read Bool := do
  if (← peek) = some c then
    skip
    return true
  else return false

/-- Takes characters as long as they satisfy a condition. The first argument bounds their number. -/
def takeAll (p : Char → Bool) : Nat → Read Octets
  | 0 => return []
  | n + 1 => do
    match ← peek with
    | some c =>
      if p c then
        skip
        return c :: (← takeAll p n)
      else return []
    | none => return []

/-- How many characters are left. -/
def remaining : Read Nat := do return (← get).rest.length

/-- A number of steps that is enough for the rest of the input: no character needs more of them. -/
def bound : Read Nat := do return 16 * (← remaining) + 64

/-- Takes the text up to a closing single quote. -/
def takeSingleQuoted : Read Octets := do
  let input ← get
  let inside := input.rest.takeWhile (· ≠ '\x27')
  match input.rest.drop inside.length with
  | [] => throw "Unterminated quoted string"
  | _ :: rest =>
    set { input with rest, line := input.line + inside.count '\n' }
    return inside

/-- Takes the text up to a closing backquote, in which a backslash quotes itself, a dollar sign, a
backquote and, between double quotes, a double quote. -/
def takeBackquoted (quoted : Bool) : Nat → Read Octets
  | 0 => throw "EOF in backquote substitution"
  | n + 1 => do
    match ← peek with
    | none => throw "EOF in backquote substitution"
    | some c =>
      skip
      if c == Char.ofNat 0x60 then return []
      else if c == '\\' then
        match ← peekRaw with
        | none => throw "EOF in backquote substitution"
        | some d =>
          skip
          let rest ← takeBackquoted quoted n
          if d == '\\' || d == Char.ofNat 0x60 || d == '$' || (quoted && d == '"') then
            return d :: rest
          else return '\\' :: d :: rest
      else return c :: (← takeBackquoted quoted n)

/-- Characters that end an unquoted word. -/
def endsWord (c : Char) : Bool := " \t\n;&|<>()".toList.contains c

/-- Characters that are parameters on their own. -/
def isSpecialParameter (c : Char) : Bool := c.isDigit || "#?$!-*@".toList.contains c

/-! ## Tokens in messages -/

/-- A token as a message names it. -/
def Token.shown : Token → String
  | .word _ => "word"
  | .keyword s => "\"" ++ s ++ "\""
  | .sign "\n" => "newline"
  | .sign s => "\"" ++ s ++ "\""
  | .arrow .. => "redirection"
  | .finish => "end of file"

/-- Fails because of a token. -/
def unexpected {α : Type} (token : Token) : Read α := throw (token.shown ++ " unexpected")

/-- Fails because another token had to come. -/
def unexpectedFor {α : Type} (token : Token) (wanted : String) : Read α :=
  throw (token.shown ++ " unexpected (expecting " ++ wanted ++ ")")

/-- Words that are keywords where a command can begin. -/
def keywords : List String :=
  ["!", "case", "do", "done", "elif", "else", "esac", "fi", "for", "if", "in", "then", "until",
    "while", "\x7b", "\x7d"]

/-- Commands of the shell that no function can stand for. -/
def specialNames : List String :=
  ["break", "continue", "eval", "exec", "exit", "export", "local", "readonly", "return", "set",
    "shift", "times", "trap", "unset"]

/-- Whether a list of commands ends in front of a token. -/
def Token.endsList : Token → Bool
  | .keyword s => ["do", "done", "elif", "else", "esac", "fi", "then", "\x7d"].contains s
  | .sign s => s = ")" || s = ";;"
  | .finish => true
  | _ => false

/-- Whether a token is a given keyword. -/
def Token.isKeyword (s : String) : Token → Bool
  | .keyword t => s = t
  | _ => false

/-- Whether a token is a given sign. -/
def Token.isSign (s : String) : Token → Bool
  | .sign t => s = t
  | _ => false

/-- Keeps a token for the next one who asks. -/
def hold (token : Token) : Read Unit := modify fun input => { input with held := some token }

/-- Where a text that is quoted like between double quotes ends. -/
inductive QuotedEnd where
  /-- At a double quote; it may stand in the braces of a parameter. -/
  | string (inBraces : Bool)
  /-- At a closing brace. -/
  | braces
  /-- At two closing parentheses; so many are open inside. -/
  | parens (depth : Nat)
  /-- In a document, at the end of a line. -/
  | line
  /-- At the end of the input. -/
  | input
  deriving DecidableEq, Repr

/-- Whether a backslash in front of a character is taken away where the text is quoted. -/
def QuotedEnd.escapes (ends : QuotedEnd) (c : Char) : Bool :=
  c == '\\' || c == Char.ofNat 0x60 || c == '$' || (c == '"' && ends ≠ .line && ends ≠ .input) ||
    (c == '\x7d' && (ends = .braces || ends = .string true))

/-- The condition sign of a parameter form. -/
def formOf (ifEmpty : Bool) : Char → Option Form
  | '-' => some (.orElse ifEmpty)
  | '=' => some (.assign ifEmpty)
  | '+' => some (.instead ifEmpty)
  | '?' => some (.complain ifEmpty)
  | _ => none

/-- The text of a word with its quotes taken off. -/
def Word.unquoted (w : Word) : Octets :=
  w.flatMap fun
    | .text s _ => s
    | _ => []

/-- Whether a part of a word is quoted. -/
def Word.hasQuotes (w : Word) : Bool :=
  w.any fun
    | .text _ quoted => quoted
    | .quote => true
    | _ => false

/-- The way to open the file of a redirection. -/
def openMode? : String → Option OpenMode
  | "<" => some .read
  | ">" => some .write
  | ">|" => some .overwrite
  | ">>" => some .append
  | "<>" => some .both
  | _ => none

/-- Gives a document its text. -/
def fillDocument (number : Nat) (text : Word) : Read Unit :=
  modify fun input => { input with documents := input.documents.set! number text }

/-- Takes a number for a document that will come behind the line. -/
def expectDocument (delimiter : Word) (tabs : Bool) : Read Nat := do
  let input ← get
  let number := input.documents.size
  let pending : Pending := ⟨number, delimiter.unquoted, delimiter.hasQuotes, tabs⟩
  set { input with documents := input.documents.push [], pending := input.pending ++ [pending] }
  return number

/-- Takes the line that ends a document, if it comes next. -/
def takeDelimiter (d : Pending) : Read Bool := do
  let input ← get
  let tabs := if d.tabs then input.rest.takeWhile (· == '\t') else []
  let start := input.rest.drop tabs.length
  if start.isEmpty then return true
  else if d.delimiter.isPrefixOf start then
    match start.drop d.delimiter.length with
    | [] =>
      set { input with rest := [] }
      return true
    | '\n' :: rest =>
      set { input with rest, line := input.line + 1 }
      return true
    | _ =>
      set { input with rest := start }
      return false
  else
    set { input with rest := start }
    return false

/-- Takes the lines of a document in which nothing is expanded. -/
def takeLiteralDocument (d : Pending) : Nat → Read Octets
  | 0 => return []
  | n + 1 => do
    if ← takeDelimiter d then return []
    else
      let input ← get
      let line := input.rest.takeWhile (· ≠ '\n')
      let rest := input.rest.drop line.length
      set { input with rest := rest.drop 1, line := input.line + 1 }
      return line ++ rest.take 1 ++ (← takeLiteralDocument d n)

/-- Takes a redirection sign, behind the digit of a stream if there is one. -/
def takeArrow (digit : Option Char) : Read Token := do
  let stream (default : Nat) := (digit.map fun c => c.toNat - 0x30).getD default
  if ← takes '>' then
    let sign ←
      if ← takes '>' then pure ">>"
      else if ← takes '|' then pure ">|"
      else if ← takes '&' then pure ">&"
      else pure ">"
    return .arrow (stream 1) sign
  else
    skip
    let sign ←
      if ← takes '<' then pure (if ← takes '-' then "<<-" else "<<")
      else if ← takes '&' then pure "<&"
      else if ← takes '>' then pure "<>"
      else pure "<"
    return .arrow (stream 0) sign

/-! ## Aliases -/

/-- Notes where a token starts, seen from where the one before ended. -/
def noteStart (ended : Nat) : Read Unit :=
  modify fun input =>
    let start := input.rest.length
    { input with
      start
      follows := input.pushed.any fun p => p.blank && p.behind < ended && start ≤ p.behind
      pushed := input.pushed.filter fun p => p.behind < start }

/-- Puts the text of an alias in the place of the last token, if the word names one that is not
being read already. -/
def pushAlias (name : String) : Read Bool := do
  let input ← get
  match input.aliases.lookup name with
  | none => return false
  | some text =>
    if input.pushed.any fun p => p.name = name && p.behind < input.start then return false
    else
      let blank := text.getLast?.any fun c => c == ' ' || c == '\t'
      set { input with
        rest := text ++ input.rest
        pushed := ⟨name, input.rest.length, blank⟩ :: input.pushed }
      return true

/-- Skips blanks and comments. -/
def skipBlanks : Nat → Read Unit
  | 0 => return ()
  | n + 1 => do
    match ← peek with
    | some ' ' => skip; skipBlanks n
    | some '\t' => skip; skipBlanks n
    | some '#' =>
      modify fun input => { input with rest := input.rest.dropWhile (· ≠ '\n') }
      skipBlanks n
    | _ => return ()

end Bundler.Shell
