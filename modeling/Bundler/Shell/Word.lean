import Bundler.Shell.Input
/-!
# Reading words

Words with their quoting and expansions, documents, and tokens. Commands stand inside words between
`$(` and `)` and between backquotes; how they are read is a parameter, `commands`, which is told
whether a parenthesis closes them.
-/

namespace Bundler.Shell

variable (commands : (closed : Bool) → Read Command)

/-- Reads the name of a parameter. -/
def readParameterName : Read String := do
  match ← peek with
  | none => return ""
  | some c =>
    if isNameStart c then return String.ofList (← takeAll isNameChar (← remaining))
    else if c.isDigit then return String.ofList (← takeAll Char.isDigit (← remaining))
    else if isSpecialParameter c then
      skip
      return String.ofList [c]
    else return ""

/-- A part of a word as if it stood outside quotes. -/
def Part.unquoted : Part → Part
  | .parameter name form word _ => .parameter name form word false
  | .output command _ => .output command false
  | .value expression _ => .value expression false
  | part => part

/-- Reads what does not belong to the document around it, or to those that are still to come. -/
def readApart {α : Type} (read : Read α) : Read α := do
  let outer ← get
  set { outer with pending := [], inDocument := false }
  let r ← read
  modify fun input => { input with pending := outer.pending, inDocument := outer.inDocument }
  return r

/-- Reads a command between backquotes. -/
def readBackquoted (quoted : Bool) : Read Part := do
  let inside ← takeBackquoted quoted ((← remaining) + 1)
  let outer ← get
  set { outer with
    rest := inside
    pushed := outer.pushed.map fun (p : Pushed) => ⟨p.name, 0, false⟩ }
  let body ← readApart (commands false)
  modify fun input =>
    { input with
      rest := outer.rest, line := outer.line, held := none, pushed := outer.pushed }
  return .output body quoted

mutual

/-- Reads an unquoted word; in braces, up to the closing one. -/
def readWord : Nat → (braces : Bool) → Read Word
  | 0, _ => throw "word unexpected"
  | n + 1, braces => do
    match ← peek with
    | none => if braces then throw "Missing '\x7d'" else return []
    | some c =>
      if c == '\x27' then
        skip
        let inside ← takeSingleQuoted
        return .quote :: .text inside true :: .quote :: (← readWord n braces)
      else if c == '"' then
        skip
        let inside ← readQuoted n (.string braces)
        return .quote :: inside ++ .quote :: (← readWord n braces)
      else if c == '\\' then
        skip
        match ← peekRaw with
        | none => return [.text ['\\'] true]
        | some d =>
          skip
          return .quote :: Word.cons d true (← readWord n braces)
      else if c == '$' then
        skip
        let inside ← readDollar n false
        return inside ++ (← readWord n braces)
      else if c == Char.ofNat 0x60 then
        skip
        let inside ← readBackquoted commands false
        return inside :: (← readWord n braces)
      else if braces && c == '\x7d' then
        skip
        return []
      else if ! braces && endsWord c then return []
      else
        skip
        return Word.cons c false (← readWord n braces)

/-- Reads a text that is quoted like between double quotes. In a document double quotes have no
effect on expansions. -/
def readQuoted : Nat → QuotedEnd → Read Word
  | 0, _ => throw "Unterminated quoted string"
  | n + 1, ends => do
    match ← peek with
    | none =>
      match ends with
      | .string _ => throw "Unterminated quoted string"
      | .braces => throw "Missing '\x7d'"
      | .parens _ => throw "Missing '))'"
      | .line => return []
      | .input => return []
    | some c =>
      skip
      if c == '\\' then
        match ← peekRaw with
        | none => return [.text ['\\'] true]
        | some d =>
          skip
          let rest ← readQuoted n ends
          if ends.escapes d then return Word.cons d true rest
          else return Word.cons '\\' true (Word.cons d true rest)
      else if c == '$' || c == Char.ofNat 0x60 then
        let inside ←
          if c == '$' then readDollar n true else pure [← readBackquoted commands true]
        let loose := (← get).inDocument && ends = .string true
        return (if loose then inside.map Part.unquoted else inside) ++ (← readQuoted n ends)
      else
        match ends, c with
        | .string _, '"' => return []
        | .braces, '\x7d' => return []
        | .braces, '"' =>
          let inside ← readQuoted n (.string true)
          return .quote :: inside ++ .quote :: (← readQuoted n ends)
        | .parens depth, '(' => return Word.cons c true (← readQuoted n (.parens (depth + 1)))
        | .parens 0, ')' =>
          if ← takes ')' then return []
          else return Word.cons c true (← readQuoted n ends)
        | .parens (depth + 1), ')' => return Word.cons c true (← readQuoted n (.parens depth))
        | .line, '\n' => return [.text ['\n'] true]
        | _, _ => return Word.cons c true (← readQuoted n ends)

/-- Reads what follows a dollar sign. A dollar sign that begins nothing is text. -/
def readDollar : Nat → (quoted : Bool) → Read Word
  | 0, _ => throw "word unexpected"
  | n + 1, quoted => do
    match ← peek with
    | some '(' =>
      skip
      if ← takes '(' then
        return [.value (← readQuoted n (.parens 0)) quoted]
      else
        return [.output (← readApart (commands true)) quoted]
    | some '\x7b' =>
      skip
      return [← readBraces n quoted]
    | some c =>
      if isNameStart c then
        return [.parameter (String.ofList (← takeAll isNameChar (← remaining))) .plain [] quoted]
      else if isSpecialParameter c then
        skip
        return [.parameter (String.ofList [c]) .plain [] quoted]
      else return [.text ['$'] quoted]
    | none => return [.text ['$'] quoted]

/-- Reads a parameter in braces. -/
def readBraces : Nat → (quoted : Bool) → Read Part
  | 0, _ => throw "word unexpected"
  | n + 1, quoted => do
    let name ← readParameterName
    if name ≠ "#" then readForm n name .plain quoted
    else
      match (← get).rest with
      | c :: d :: _ =>
        if isNameChar c then readForm n (← readParameterName) .length quoted
        else if c ≠ '\x7d' && d == '\x7d' then
          skip
          readForm n (if isSpecialParameter c then String.ofList [c] else "") .length quoted
        else readForm n name .plain quoted
      | _ => readForm n name .plain quoted

/-- Reads the form of a parameter up to the closing brace. -/
def readForm : Nat → String → Form → (quoted : Bool) → Read Part
  | 0, _, _, _ => throw "word unexpected"
  | n + 1, name, form, quoted => do
    let word : Read Word := if quoted then readQuoted n .braces else readWord n true
    match ← peek with
    | none => throw "Missing '\x7d'"
    | some '\x7d' =>
      skip
      return .parameter name (if name = "" then .bad else form) [] quoted
    | some c =>
      if name = "" || form ≠ .plain then return .parameter name .bad (← word) quoted
      else
        skip
        if c == '%' || c == '#' then
          let twice ← takes c
          let cut : Cut :=
            if c == '%' then if twice then .longestEnd else .shortestEnd
            else if twice then .longestStart else .shortestStart
          return .parameter name (.trim cut) (← readWord n true) quoted
        else if c == ':' then
          match (← peek).bind (formOf true) with
          | some form =>
            skip
            return .parameter name form (← word) quoted
          | none => return .parameter name .bad (← word) quoted
        else
          return .parameter name ((formOf false c).getD .bad) (← word) quoted

end

/-! ## Documents -/

/-- Reads the lines of a document in which parameters and commands are expanded. The first argument
bounds their number. -/
def readDocument (d : Pending) : Nat → Read Word
  | 0 => throw "word unexpected"
  | n + 1 => do
    if ← takeDelimiter d then return []
    else
      modify fun input => { input with inDocument := true }
      let line ← readQuoted commands (← bound) .line
      modify fun input => { input with inDocument := false }
      return line ++ (← readDocument d n)

/-- Reads the documents that belong to the line before. -/
def readDocuments : List Pending → Read Unit
  | [] => return ()
  | d :: more => do
    let lines := (← remaining) + 1
    let text ←
      if d.literal then pure [.text (← takeLiteralDocument d lines) true]
      else readDocument commands d lines
    fillDocument d.number text
    readDocuments more

/-! ## Tokens -/

/-- Reads the documents that are still to come. -/
def readPending : Read Unit := do
  let pending := (← get).pending
  modify fun input => { input with pending := [] }
  readDocuments commands pending

/-- Takes a sign of one character, or of two if it is doubled. -/
def takeSign (c : Char) : Read Token := do
  skip
  if ← takes c then return .sign (String.ofList [c, c]) else return .sign (String.ofList [c])

/-- Reads a token from the input. Documents follow the line break behind their line. -/
def scanToken : Read Token := do
  let noted := ! (← get).pushed.isEmpty
  let ended ← if noted then remaining else pure 0
  skipBlanks ((← remaining) + 1)
  if noted then noteStart ended
  match ← peek with
  | none => readPending commands; return .finish
  | some '\n' => skip; readPending commands; return .sign "\n"
  | some '&' => takeSign '&'
  | some '|' => takeSign '|'
  | some ';' => takeSign ';'
  | some '(' => skip; return .sign "("
  | some ')' => skip; return .sign ")"
  | some _ =>
    let w ← readWord commands (← bound) false
    modify fun input => { input with lastWord := w }
    let arrow := (← get).rest.head?.any fun c => c == '<' || c == '>'
    match w with
    | [] => takeArrow none
    | [.text [c] false] => if arrow && c.isDigit then takeArrow (some c) else return .word w
    | _ => return .word w

/-- The next token: one that was looked at, or one from the input. -/
def nextToken : Read Token := do
  let input ← get
  match input.held with
  | some token =>
    set { input with held := none, follows := false }
    return token
  | none => scanToken commands

/-- The next token that is no line break. The first argument bounds the number of line breaks. -/
def nextBehindBreaks : Nat → Read Token
  | 0 => nextToken commands
  | n + 1 => do
    let token ← nextToken commands
    if token.isSign "\n" then nextBehindBreaks n else return token

/-- What words may stand for where a token is read. -/
structure Expecting where
  /-- Line breaks are skipped. -/
  breaks : Bool
  /-- Words may be keywords. -/
  keywords : Bool
  /-- Words may be aliases. -/
  aliases : Bool

/-- A token in the middle of a command. -/
def Expecting.nothing : Expecting := ⟨false, false, false⟩

/-- A token where a command can begin. -/
def Expecting.command (breaks : Bool) : Expecting := ⟨breaks, true, true⟩

/-- Reads a token. The first argument bounds how often an alias takes the place of one. -/
def readTokenWithin : Nat → Expecting → Read Token
  | 0, _ => nextToken commands
  | n + 1, e => do
    let token ←
      if e.breaks then nextBehindBreaks commands ((← remaining) + 1) else nextToken commands
    match token with
    | .word [.text s false] =>
      let s := String.ofList s
      let e := { e with aliases := e.aliases || (← get).follows }
      if e.keywords && keywords.contains s then return .keyword s
      else if ! e.aliases then return token
      else if ← pushAlias s then readTokenWithin n e
      else return token
    | _ => return token

/-- Reads a token. -/
def readToken (e : Expecting) : Read Token := readTokenWithin commands 1000 e

/-- Reads the word behind a redirection sign. -/
def readTarget (stream : Nat) (sign : String) : Read Redirect := do
  match ← readToken commands .nothing with
  | .word w =>
    match openMode? sign with
    | some mode => return .file stream mode w
    | none =>
      if sign = "<<" then return .document stream (← expectDocument w false)
      else if sign = "<<-" then return .document stream (← expectDocument w true)
      else return .copy stream w
  | token => unexpected token

end Bundler.Shell
