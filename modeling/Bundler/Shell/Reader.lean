import Bundler.Shell.Word
/-!
# Reading commands

`readLine` takes one complete command from an input, with all the lines it spans, so that a shell
can run what stands before a mistake. Words are keywords only where a command can begin.
-/

namespace Bundler.Shell

/-- Takes a keyword that has to come. -/
def expectKeyword (commands : (closed : Bool) → Read Command) (s : String) : Read Unit := do
  let token ← readToken commands (.command false)
  unless token.isKeyword s do unexpectedFor token ("\"" ++ s ++ "\"")

mutual

/-- Reads the commands inside a word. -/
def readInner : Nat → (closed : Bool) → Read Command
  | 0, _ => throw "word unexpected"
  | n + 1, closed => do
    let body ← readList n true true
    if closed then
      let token ← readToken (readInner n) .nothing
      unless token.isSign ")" do unexpectedFor token "\")\""
    return body

/-- Reads a list of commands up to a token that ends it, which is held. A list of the line that is
being read ends with it; others go over lines. -/
def readList : Nat → (breaks : Bool) → (mayEnd : Bool) → Read Command
  | 0, _, _ => throw "word unexpected"
  | n + 1, breaks, mayEnd => readItems n breaks mayEnd .nothing

/-- Reads the commands of a list behind those that were read. -/
def readItems : Nat → (breaks : Bool) → (mayEnd : Bool) → Command → Read Command
  | 0, _, _, _ => throw "word unexpected"
  | n + 1, breaks, mayEnd, before => do
    let token ← readToken (readInner n) (.command breaks)
    match token with
    | .sign "\n" => return before
    | .finish => hold token; return before
    | _ =>
      hold token
      if breaks && mayEnd && token.endsList then return before
      else
        let command ← readChain n
        let token ← readToken (readInner n) .nothing
        let command := if token.isSign "&" then .background command else command
        let before := match before with
          | .nothing => command
          | before => .sequence before command
        match token with
        | .finish => hold token; return before
        | .sign "\n" =>
          unless breaks do hold token
          readItems n breaks true before
        | .sign ";" => readItems n breaks true before
        | .sign "&" => readItems n breaks true before
        | _ =>
          unless breaks do unexpected token
          hold token
          return before

/-- Reads commands joined by `&&` and `||`. -/
def readChain : Nat → Read Command
  | 0 => throw "word unexpected"
  | n + 1 => do readLinks n (← readPipeline n false)

/-- Reads what is joined to a command, from the left. -/
def readLinks : Nat → Command → Read Command
  | 0, _ => throw "word unexpected"
  | n + 1, first => do
    match ← readToken (readInner n) .nothing with
    | .sign "&&" => readLinks n (.both first (← readPipeline n true))
    | .sign "||" => readLinks n (.either first (← readPipeline n true))
    | token => hold token; return first

/-- Reads commands joined by `|`, perhaps behind `!`. -/
def readPipeline : Nat → (breaks : Bool) → Read Command
  | 0, _ => throw "word unexpected"
  | n + 1, breaks => do
    let token ← readToken (readInner n) (.command breaks)
    if token.isKeyword "!" then
      return .negate (← readPipes n)
    else
      hold token
      readPipes n

/-- Reads commands joined by `|`. -/
def readPipes : Nat → Read Command
  | 0 => throw "word unexpected"
  | n + 1 => do
    let first ← readCommand n false
    match ← readMorePipes n with
    | [] => return first
    | more => return .pipeline (first :: more)

/-- Reads the commands behind a `|`. -/
def readMorePipes : Nat → Read (List Command)
  | 0 => throw "word unexpected"
  | n + 1 => do
    let token ← readToken (readInner n) .nothing
    if token.isSign "|" then
      let command ← readCommand n true
      return command :: (← readMorePipes n)
    else
      hold token
      return []

/-- Reads one command. -/
def readCommand : Nat → (breaks : Bool) → Read Command
  | 0, _ => throw "word unexpected"
  | n + 1, breaks => do
    let token ← readToken (readInner n) (.command breaks)
    let line := (← get).line
    match token with
    | .keyword "if" =>
      let command ← readBranch n
      readTail n line command
    | .keyword "while" => readTail n line (← readLoop n true)
    | .keyword "until" => readTail n line (← readLoop n false)
    | .keyword "for" => readTail n line (← readEach n line)
    | .keyword "case" => readTail n line (← readSelect n line)
    | .keyword "\x7b" =>
      let body ← readList n true false
      expectKeyword (readInner n) "\x7d"
      readTail n line body
    | .sign "(" =>
      let body ← readList n true false
      let token ← readToken (readInner n) (.command false)
      unless token.isSign ")" do unexpectedFor token "\")\""
      return .subshell line body (← readRedirects n)
    | .word _ => hold token; readSimple n line [] [] []
    | .arrow .. => hold token; readSimple n line [] [] []
    | _ => unexpected token

/-- Reads the redirections behind a command that is built from others. -/
def readTail : Nat → Nat → Command → Read Command
  | 0, _, _ => throw "word unexpected"
  | n + 1, line, command => do
    match ← readRedirects n with
    | [] => return command
    | redirects => return .group line command redirects

/-- Reads redirections. -/
def readRedirects : Nat → Read (List Redirect)
  | 0 => throw "word unexpected"
  | n + 1 => do
    match ← readToken (readInner n) (.command false) with
    | .arrow stream sign =>
      let redirect ← readTarget (readInner n) stream sign
      return redirect :: (← readRedirects n)
    | token => hold token; return []

/-- Reads the rest of a conditional. -/
def readBranch : Nat → Read Command
  | 0 => throw "word unexpected"
  | n + 1 => do
    let condition ← readList n true false
    expectKeyword (readInner n) "then"
    let yes ← readList n true false
    let token ← readToken (readInner n) (.command false)
    match token with
    | .keyword "elif" => return .branch condition yes (← readBranch n)
    | .keyword "else" =>
      let no ← readList n true false
      expectKeyword (readInner n) "fi"
      return .branch condition yes no
    | .keyword "fi" => return .branch condition yes .nothing
    | _ => unexpectedFor token "\"fi\""

/-- Reads the rest of a loop with a condition. -/
def readLoop : Nat → (wanted : Bool) → Read Command
  | 0, _ => throw "word unexpected"
  | n + 1, wanted => do
    let condition ← readList n true false
    expectKeyword (readInner n) "do"
    let body ← readList n true false
    expectKeyword (readInner n) "done"
    return .loop wanted condition body

/-- Reads words up to another token, which is held. -/
def readWords : Nat → Read (List Word)
  | 0 => throw "word unexpected"
  | n + 1 => do
    match ← readToken (readInner n) .nothing with
    | .word w => return w :: (← readWords n)
    | token => hold token; return []

/-- Reads the rest of a loop over words; without words it goes over the arguments. -/
def readEach : Nat → Nat → Read Command
  | 0, _ => throw "word unexpected"
  | n + 1, line => do
    let name ← match ← readToken (readInner n) .nothing with
      | .word [.text s false] => if isName s then pure s else throw "Bad for loop variable"
      | _ => throw "Bad for loop variable"
    let token ← readToken (readInner n) (.command true)
    let words ←
      if token.isKeyword "in" then do
        let words ← readWords n
        let token ← readToken (readInner n) .nothing
        unless token.isSign "\n" || token.isSign ";" do unexpected token
        pure words
      else do
        unless token.isSign ";" do hold token
        pure [[Part.quote, .parameter "@" .plain [] true, .quote]]
    let token ← readToken (readInner n) (.command true)
    unless token.isKeyword "do" do unexpectedFor token "\"do\""
    let body ← readList n true false
    expectKeyword (readInner n) "done"
    return .each line (String.ofList name) words body

/-- Reads the rest of a choice by patterns. -/
def readSelect : Nat → Nat → Read Command
  | 0, _ => throw "word unexpected"
  | n + 1, line => do
    let token ← readToken (readInner n) .nothing
    match token with
    | .word subject =>
      let token ← readToken (readInner n) (.command true)
      unless token.isKeyword "in" do unexpectedFor token "\"in\""
      return .select line subject (← readArms n)
    | _ => unexpectedFor token "word"

/-- Reads the arms of a choice. -/
def readArms : Nat → Read (List Arm)
  | 0 => throw "word unexpected"
  | n + 1 => do
    let token ← readToken (readInner n) ⟨true, true, false⟩
    if token.isKeyword "esac" then return []
    else
      unless token.isSign "(" do hold token
      let patterns ← readPatterns n
      let body ← readList n true true
      let token ← readToken (readInner n) (.command true)
      let arm : Arm := .arm patterns body
      if token.isKeyword "esac" then return [arm]
      else if token.isSign ";;" then return arm :: (← readArms n)
      else unexpectedFor token "\";;\""

/-- Reads the patterns of an arm up to the closing parenthesis. Where a pattern is left out, the last
word is one. -/
def readPatterns : Nat → Read (List Word)
  | 0 => throw "word unexpected"
  | n + 1 => do
    let first ← readToken (readInner n) .nothing
    let w ← match first with
      | .word w => pure w
      | .keyword s => pure [Part.text s.toList false]
      | _ => pure (← get).lastWord
    let token ← readToken (readInner n) .nothing
    if token.isSign "|" then return w :: (← readPatterns n)
    else if token.isSign ")" then return [w]
    else unexpectedFor token "\")\""

/-- Reads the rest of a simple command. What was read comes in reading order, the latest first. -/
def readSimple : Nat → Nat → List (String × Word) → List Word → List Redirect → Read Command
  | 0, _, _, _, _ => throw "word unexpected"
  | n + 1, line, assignments, words, redirects => do
    let token ← readToken (readInner n) ⟨false, false, words.isEmpty⟩
    let done : Read Command := do
      hold token
      return .simple line assignments.reverse words.reverse redirects.reverse
    match token with
    | .word w =>
      match if words.isEmpty then w.assignment? else none with
      | some assignment => readSimple n line (assignment :: assignments) words redirects
      | none => readSimple n line assignments (w :: words) redirects
    | .arrow stream sign =>
      let redirect ← readTarget (readInner n) stream sign
      readSimple n line assignments words (redirect :: redirects)
    | .sign "(" =>
      match words, assignments, redirects with
      | [w], [], [] =>
        let token ← readToken (readInner n) .nothing
        unless token.isSign ")" do unexpectedFor token "\")\""
        match w.plain? with
        | some name =>
          if ! isName name || specialNames.contains (String.ofList name) then
            throw "Bad function name"
          return .define (String.ofList name) (← readCommand n true)
        | none => throw "Bad function name"
      | _, _, _ => done
    | _ => done

end

/-- Reads the next complete command; at the end of the input there is none. -/
def readLine : Read (Option Command) := do
  let n ← bound
  let token ← readToken (readInner n) (.command false)
  match token with
  | .finish => return none
  | _ =>
    hold token
    return some (← readList n false false)

/-- Whether the whole input has been read. -/
def Input.isDone (input : Input) : Bool :=
  match input.held with
  | some .finish => true
  | _ => false

/-- An input at its start. -/
def Input.ofText (text : Octets) : Input :=
  ⟨text, 1, none, [], #[], [], [], 0, false, false, []⟩

end Bundler.Shell
