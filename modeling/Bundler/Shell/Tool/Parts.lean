import Bundler.Shell.Pattern
import Bundler.Shell.Tool.Inputs
/-!
# Counting, cutting and changing characters

The tools that count what is in files, show parts of lines, and put other characters in the place of
some.
-/

namespace Bundler.Shell

/-! ## Counting -/

/-- What is counted in a text. -/
structure Counts where
  lines : Nat
  words : Nat
  bytes : Nat
  /-- The greatest width of a line. -/
  longest : Nat
  deriving DecidableEq, Repr

/-- A number at the end of a column. -/
def column (width n : Nat) : Octets :=
  let digits := Octets.ofNat n
  List.replicate (width - digits.length) ' ' ++ digits

/-- The greatest width of a line, behind a part of one that has a width. -/
def longestLine (text : Octets) : Nat :=
  let (best, width) := text.foldl (fun ((best, width) : Nat × Nat) c =>
    if c == '\n' || c == '\r' || c == Char.ofNat 12 then (max best width, 0)
    else if c == '\t' then (best, width + (8 - width % 8))
    else if c == ' ' || isGraphic c then (best, width + 1)
    else (best, width)) (0, 0)
  max best width

/-- Counts what is in a text. -/
def Counts.ofText (text : Octets) : Counts where
  lines := text.count '\n'
  words := (Octets.pieces isSpace text).countP (! ·.isEmpty)
  bytes := text.length
  longest := longestLine text

/-- The counts of two texts together. -/
def Counts.add (a b : Counts) : Counts :=
  ⟨a.lines + b.lines, a.words + b.words, a.bytes + b.bytes, max a.longest b.longest⟩

/-- The numbers that options ask for. -/
def Counts.wanted (c : Counts) (a : Arguments) : List Nat :=
  let all : List (String × Nat) :=
    [("l", c.lines), ("w", c.words), ("m", c.bytes), ("c", c.bytes), ("L", c.longest)]
  let usual := ! a.hasAny "lwmcL"
  (all.filter fun e => if usual then ["l", "w", "c"].contains e.1 else a.has e.1).map (·.2)

/-- The width of the columns for some inputs: that of the size of all files together. -/
def countWidth (call : Call) (a : Arguments) (single : Bool) : Work Nat := do
  if single then return 1
  else
    let known ← a.inputs.filterMapM fun arg =>
      call.status? (if arg = ['-'] then "/dev/stdin".toList else arg)
    let total := Octets.total ((known.filter fun s => s.kind = .file).map (·.size))
    let least := if known.all fun s => s.kind = .file then 1 else 7
    return max least (Octets.ofNat total).length

/-- Counts lines, words and bytes. -/
def Tool.wc : Tool := fun call =>
  let table := optionTable "clLmw"
    ["c=bytes", "m=chars", "l=lines", "L=max-line-length", "w=words", "total:", "files0-from:"]
  withOptions table call fun a => do
    let single := a.inputs.length = 1 && ((Counts.ofText []).wanted a).length = 1
    let when_ := (a.value? "total").getD "auto".toList
    let onlyTotal := when_ = "only".toList
    let width ← countWidth call a (single || onlyTotal)
    let show_ (c : Counts) (name : Octets) : Work Unit :=
      call.put (Octets.joined [' '] ((c.wanted a).map (column width)) ++
        (if name.isEmpty then [] else ' ' :: name) ++ ['\n'])
    let (total, code) ← a.inputs.foldlM (fun (total, code) arg => do
      let name := if a.operands.isEmpty then [] else arg
      match ← call.openToRead arg with
      | .error why =>
        call.blames arg why
        return (total, 1)
      | .ok n =>
        match ← call.readChannel n with
        | .ok text =>
          let c := Counts.ofText text
          unless onlyTotal do show_ c name
          return (total.add c, code)
        | .error why =>
          call.blames arg why
          unless onlyTotal do show_ (Counts.ofText []) name
          return (total, 1)) (⟨0, 0, 0, 0⟩, 0)
    if onlyTotal then show_ total []
    else if when_ = "always".toList || (1 < a.inputs.length && when_ ≠ "never".toList) then
      show_ total "total".toList
    return code

/-! ## Cutting -/

/-- Numbers from one to another; without an end, all from one on. -/
abbrev Span := Nat × Option Nat

/-- The spans of a list like `1,3-5`, or what is wrong with it. -/
def readSpans (fields : Bool) (s : Octets) : Except Octets (List Span) :=
  let noun := if fields then "field" else "byte/character position"
  let wrong (piece : Octets) : Except Octets Span :=
    .error (("invalid " ++ noun ++ " value ").toList ++ quotedName piece)
  let fromOne (low : Nat) (span : Span) : Except Octets Span :=
    if low = 0 then
      .error (if fields then "fields are numbered from 1".toList
        else "byte/character positions are numbered from 1".toList)
    else .ok span
  (Octets.pieces (fun c => c == ',' || c == ' ' || c == '\t') s).mapM fun piece =>
    match Octets.pieces (· == '-') piece with
    | [[]] => fromOne 0 (0, none)
    | [n] =>
      match Octets.nat? n with
      | some n => fromOne n (n, some n)
      | none => wrong piece
    | [low, high] =>
      if low.isEmpty && high.isEmpty then .error "invalid range with no endpoint: -".toList
      else
        let low? := if low.isEmpty then some 1 else Octets.nat? low
        let high? := if high.isEmpty then some none else (Octets.nat? high).map some
        match low?, high? with
        | some low, some high =>
          if high.any (· < low) then .error "invalid decreasing range".toList
          else fromOne low (low, high)
        | _, _ => wrong piece
    | _ => wrong piece

/-- Adds a span to spans in order, the last one first. One that overlaps it becomes one with it. -/
def addSpan (before : List Span) (span : Span) : List Span :=
  match before with
  | [] => [span]
  | (low, high) :: more =>
    if high.all (span.1 ≤ ·) then
      let last := match high, span.2 with
        | some m, some n => some (max m n)
        | _, _ => none
      (low, last) :: more
    else span :: before

/-- Spans in order, where those that overlap are one. -/
def mergeSpans (spans : List Span) : List Span :=
  ((spans.mergeSort fun a b => a.1 ≤ b.1).foldl addSpan []).reverse

/-- The spans between given ones. `start` is the first number that is not decided. -/
def complementFrom : Nat → List Span → List Span
  | start, [] => [(start, none)]
  | start, (low, high) :: rest =>
    let before := if start < low then [(start, some (low - 1))] else []
    match high with
    | none => before
    | some high => before ++ complementFrom (high + 1) rest

/-- The members of a list whose numbers lie in spans, span by span. -/
def chosen {α : Type} (spans : List Span) (xs : List α) : List (List α) :=
  (spans.map fun (low, high) =>
    let behind := xs.drop (low - 1)
    match high with
    | none => behind
    | some high => behind.take (high + 1 - low)).filter (! ·.isEmpty)

/-- Shows parts of lines. -/
def Tool.cut : Tool := fun call =>
  let table := optionTable "b:c:d:f:nsz"
    ["b=bytes:", "c=characters:", "d=delimiter:", "f=fields:", "s=only-delimited",
      "output-delimiter:", "complement", "z=zero-terminated"]
  withOptions table call fun a => do
    let lists := a.options.filter fun o => ["b", "c", "f"].contains o.1
    match lists with
    | [] => call.refuse "you must specify a list of bytes, characters, or fields".toList
    | _ :: _ :: _ => call.refuse "only one list may be specified".toList
    | [(kind, list)] =>
      let fields := kind = "f"
      let delimiter := (a.value? "d").getD ['\t']
      if 1 < delimiter.length then
        call.refuse "the delimiter must be a single character".toList
      else if a.has "d" && ! fields then
        call.refuse "an input delimiter may be specified only when operating on fields".toList
      else if a.has "s" && ! fields then
        call.refuse ("suppressing non-delimited lines makes sense\n\tonly when operating " ++
          "on fields").toList
      else
        match readSpans fields list with
        | .error message => call.refuse message
        | .ok spans =>
          let spans := mergeSpans spans
          let spans := if a.has "complement" then complementFrom 1 spans else spans
          let mark := delimiter.headD (Char.ofNat 0)
          let shorten (line : Octets) : Option Octets :=
            if fields then
              if line.contains mark then
                let between := (a.value? "output-delimiter").getD [mark]
                some (Octets.joined between (chosen spans (Octets.pieces (· == mark) line)).flatten)
              else if a.has "s" then none
              else some line
            else some (Octets.joined ((a.value? "output-delimiter").getD []) (chosen spans line))
          call.eachInput a fun _ text =>
            call.put (unrecords a.recordEnd ((bareRecords a.recordEnd text).filterMap shorten))

/-! ## Changing characters -/

/-- All characters, in order. -/
def allChars : List Char := (List.range 256).map Char.ofNat

/-- A part of a set of characters. -/
inductive SetPart where
  | char (c : Char)
  | range (low high : Char)
  | named (cls : String)
  /-- A character that is repeated; as often as there is room if no number is given. -/
  | repeated (c : Char) (count : Option Nat)
  deriving DecidableEq, Repr

/-- Takes the backslashes out of a set; the flags are true for characters behind one. -/
def unquoteSet : Octets → List (Char × Bool)
  | [] => []
  | '\\' :: a :: b :: c :: rest =>
    let digit (c : Char) : Bool := Octets.isDigitOf 8 c
    if digit a && digit b && digit c && Octets.valueOf 8 [a, b, c] < 256 then
      (Char.ofNat (Octets.valueOf 8 [a, b, c]), true) :: unquoteSet rest
    else if digit a && digit b then
      (Char.ofNat (Octets.valueOf 8 [a, b]), true) :: unquoteSet (c :: rest)
    else if digit a then
      (Char.ofNat (Octets.valueOf 8 [a]), true) :: unquoteSet (b :: c :: rest)
    else (letter a, true) :: unquoteSet (b :: c :: rest)
  | '\\' :: a :: b :: rest =>
    if Octets.isDigitOf 8 a && Octets.isDigitOf 8 b then
      (Char.ofNat (Octets.valueOf 8 [a, b]), true) :: unquoteSet rest
    else if Octets.isDigitOf 8 a then
      (Char.ofNat (Octets.valueOf 8 [a]), true) :: unquoteSet (b :: rest)
    else (letter a, true) :: unquoteSet (b :: rest)
  | '\\' :: a :: rest =>
    (if Octets.isDigitOf 8 a then Char.ofNat (Octets.valueOf 8 [a]) else letter a, true) ::
      unquoteSet rest
  | c :: rest => (c, false) :: unquoteSet rest
where
  /-- The character that a letter behind a backslash stands for. -/
  letter : Char → Char
    | 'a' => Char.ofNat 7
    | 'b' => Char.ofNat 8
    | 'f' => Char.ofNat 12
    | 'n' => '\n'
    | 'r' => '\r'
    | 't' => '\t'
    | 'v' => Char.ofNat 11
    | c => c

/-- A name in brackets like `[:alpha:]`, behind its first two characters, with what follows. -/
def bracketed? (mark : Char) (s : List (Char × Bool)) : Option (Octets × List (Char × Bool)) :=
  let rec go : List (Char × Bool) → Octets → Option (Octets × List (Char × Bool))
    | (c, quoted) :: (']', false) :: rest, name =>
      if c == mark && ! quoted then some (name.reverse, rest)
      else go ((']', false) :: rest) (c :: name)
    | (c, _) :: rest, name => go rest (c :: name)
    | [], _ => none
  go s []

/-- The count of a repeated character, behind its star, with what follows. -/
def repeatCount? (s : List (Char × Bool)) : Option (Option Nat × List (Char × Bool)) :=
  let digits := (s.takeWhile fun c => c.1.isDigit && ! c.2).map (·.1)
  match s.drop digits.length with
  | (']', false) :: rest =>
    let n := Octets.valueOf (if digits.head? = some '0' then 8 else 10) digits
    some (if n = 0 then none else some n, rest)
  | _ => none

/-- The parts of a set, or what is wrong with it. The first argument bounds their number. -/
def readSetParts : Nat → List (Char × Bool) → Except Octets (List SetPart)
  | 0, _ => .ok []
  | _ + 1, [] => .ok []
  | n + 1, (c, quoted) :: rest => do
    let opens := c == '[' && ! quoted
    let special : Option (Except Octets (SetPart × List (Char × Bool))) :=
      match opens, rest with
      | true, (':', false) :: more =>
        (bracketed? ':' more).bind fun (name, rest) =>
          let cls := String.ofList name
          if classNames.contains cls then some (.ok (.named cls, rest))
          else if more.head? = some ('*', false) then none
          else some (.error ("invalid character class ".toList ++ quotedName name))
      | true, ('=', false) :: more =>
        (bracketed? '=' more).bind fun (name, rest) =>
          match name with
          | [c] => some (.ok (.char c, rest))
          | [] => some (.error "missing equivalence class character '[==]'".toList)
          | _ => some (.error (name ++
              ": equivalence class operand must be a single character".toList))
      | _, _ => none
    let repeats : Option (SetPart × List (Char × Bool)) :=
      match opens, rest with
      | true, (d, _) :: ('*', false) :: more =>
        (repeatCount? more).map fun (count, rest) => (.repeated d count, rest)
      | _, _ => none
    match special, repeats with
    | some (.error e), _ => .error e
    | some (.ok (part, rest)), _ => return part :: (← readSetParts n rest)
    | none, some (part, rest) => return part :: (← readSetParts n rest)
    | none, none =>
      match rest with
      | ('-', false) :: (d, _) :: more =>
        if d < c then
          .error ("range-endpoints of ".toList ++ quotedName [c, '-', d] ++
            " are in reverse collating sequence order".toList)
        else return .range c d :: (← readSetParts n more)
      | _ => return .char c :: (← readSetParts n rest)

/-- The parts of a set that a text spells. -/
def readSet (s : Octets) : Except Octets (List SetPart) :=
  readSetParts (s.length + 1) (unquoteSet s)

/-- The characters of a part of a set; one that is repeated without a number is in it `room`
times. -/
def SetPart.chars (room : Nat) : SetPart → Octets
  | .char c => [c]
  | .range low high => allChars.filter fun c => low ≤ c && c ≤ high
  | .named cls => allChars.filter (inClass cls)
  | .repeated c (some n) => List.replicate n c
  | .repeated c none => List.replicate room c

/-- The characters of a set that has no more of them than `size` where one is repeated. -/
def setChars (size : Nat) (parts : List SetPart) : Octets :=
  let fixed := Octets.total ((parts.map (SetPart.chars 0)).map List.length)
  parts.flatMap (SetPart.chars (size - fixed))

/-- The pairs of characters that are put in the place of each other: classes of small and capital
letters go together. -/
def charPairs (truncates : Bool) (first second : List SetPart) (complement : Bool) :
    List (Char × Char) :=
  let ones := setChars 0 first
  let ones := if complement then allChars.filter (! ones.contains ·) else ones
  let others := setChars ones.length second
  let filled :=
    if truncates then others
    else others ++ List.replicate (ones.length - others.length) (others.getLastD ' ')
  ones.zip filled

/-- Drops characters of a set that come again right behind themselves; the first argument is the
character that came last. -/
def squeeze (set : Char → Bool) : Option Char → Octets → Octets → Octets
  | _, out, [] => out.reverse
  | last, out, c :: rest =>
    if last = some c && set c then squeeze set last out rest
    else squeeze set (some c) (c :: out) rest

/-- What is wrong with the sets of a call. -/
def charSetMistake? (deletes truncates complement : Bool) (first second : List SetPart) :
    Option Octets :=
  let isRepeat : SetPart → Bool
    | .repeated .. => true
    | _ => false
  let isOpen : SetPart → Bool
    | .repeated _ none => true
    | _ => false
  let wrongClass : SetPart → Bool
    | .named cls => cls ≠ "upper" && cls ≠ "lower"
    | _ => false
  if first.any isRepeat then some "the [c*] repeat construct may not appear in string1".toList
  else if 1 < second.countP isOpen then
    some "only one [c*] repeat construct may appear in string2".toList
  else if deletes then none
  else if second.any wrongClass then
    some ("when translating, the only character classes that may appear in\n" ++
      "string2 are 'upper' and 'lower'").toList
  else if ! truncates && (setChars 0 second).isEmpty && ! second.any isOpen then
    some "when not truncating set1, string2 must be non-empty".toList
  else
    let pairs := charPairs truncates first second complement
    let hasClass := first.any fun
      | .named _ => true
      | _ => false
    if complement && hasClass && 1 < ((pairs.map (·.2)).eraseDups).length then
      some ("when translating with complemented character classes,\n" ++
        "string2 must map all characters in the domain to one").toList
    else none

/-- Puts other characters in the place of some, removes some, or makes one of several. -/
def Tool.tr : Tool := fun call =>
  let table := optionTable "cCdst"
    ["c=complement", "d=delete", "s=squeeze-repeats", "t=truncate-set1"]
  withOptionsOr 1 true table call fun a => do
    let complement := a.hasAny "cC"
    let (deletes, squeezes, truncates) := (a.has "d", a.has "s", a.has "t")
    let least := if deletes = squeezes then 2 else 1
    let most := if deletes && ! squeezes then 1 else 2
    let count := a.operands.length
    if count < least || count = 0 then
      match a.operands.getLast? with
      | none => call.refuse "missing operand".toList
      | some s =>
        call.complain ("missing operand after ".toList ++ quotedName s)
        call.note (if squeezes
          then "Two strings must be given when both deleting and squeezing repeats.".toList
          else "Two strings must be given when translating.".toList)
        call.pointToHelp
        return 1
    else if most < count then
      call.complain ("extra operand ".toList ++ quotedName (a.operands[most]?.getD []))
      if deletes && ! squeezes then
        call.note "Only one string may be given when deleting without squeezing repeats.".toList
      call.pointToHelp
      return 1
    else
      let sets := do
        let first ← readSet (a.operands.headD [])
        let second ← readSet ((a.operands[1]?).getD [])
        return (first, second)
      match sets with
      | .error message => call.gives 1 message
      | .ok (first, second) =>
        let translates := count = 2 && ! deletes
        match charSetMistake? (! translates) truncates complement first second with
        | some message => call.gives 1 message
        | none =>
          let members := setChars 0 first
          let isFirst (c : Char) : Bool := members.contains c ≠ complement
          let pairs := if translates then charPairs truncates first second complement else []
          let table := allChars.map fun c => ((pairs.reverse.lookup c).getD c)
          let table := table.toArray
          let squeezed := setChars 0 second
          let isSqueezed (c : Char) : Bool :=
            squeezes && (if count = 2 then squeezed.contains c else isFirst c)
          let change (last : Option Char) (text : Octets) : Octets :=
            let text := if deletes then text.filter (! isFirst ·) else text
            let text := if translates then text.map fun c => table[c.toNat]?.getD c else text
            if squeezes then squeeze isSqueezed last [] text else text
          match ← call.openToRead ['-'] with
          | .error why => call.gives 1 ("read error: ".toList ++ why)
          | .ok n =>
            match ← call.eachPiece n none fun last piece => do
              let text := change last piece
              call.put text
              return ((text.getLast?).orElse fun _ => last, (← get).isNone) with
            | .ok _ => return 0
            | .error why => call.gives 1 ("read error: ".toList ++ why)

end Bundler.Shell
