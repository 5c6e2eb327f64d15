import Bundler.Shell.Tool.Inputs
/-!
# Showing files

The tools that show files: whole, from the last line to the first, or their starts and ends, and the
one that keeps in files what it shows.
-/

namespace Bundler.Shell

/-! ## Whole files -/

/-- What is shown of characters. -/
structure ShowingStyle where
  /-- All lines are numbered. -/
  numbers : Bool
  /-- Lines that are not empty are numbered. -/
  numbersFull : Bool
  /-- Of empty lines in a row, one is shown. -/
  squeezes : Bool
  ends : Bool
  tabs : Bool
  hidden : Bool

/-- The style that options ask for. -/
def ShowingStyle.ofArguments (a : Arguments) : ShowingStyle where
  numbers := a.has "n" && ! a.has "b"
  numbersFull := a.has "b"
  squeezes := a.has "s"
  ends := a.hasAny "AeE"
  tabs := a.hasAny "AtT"
  hidden := a.hasAny "Aetv"

/-- Whether files are shown as they are. -/
def ShowingStyle.isPlain (o : ShowingStyle) : Bool :=
  ! (o.numbers || o.numbersFull || o.squeezes || o.ends || o.tabs || o.hidden)

/-- Where the showing of lines stands. -/
structure ShowingState where
  /-- The number of the last line. -/
  line : Nat
  /-- How many empty lines came last; nothing within a line. -/
  blank : Option Nat
  /-- A carriage return came last, which is shown when it is known what follows. -/
  heldReturn : Bool

/-- A character that is not printed, in signs that are. -/
def hiddenText (c : Char) : Octets :=
  let low (n : Nat) : Octets :=
    if n < 32 then ['^', Char.ofNat (n + 64)] else if n = 127 then ['^', '?'] else [Char.ofNat n]
  if c.toNat < 128 then low c.toNat else 'M' :: '-' :: low (c.toNat - 128)

/-- The number of a line in its column. -/
def lineNumber (n : Nat) : Octets :=
  let digits := Octets.ofNat n
  List.replicate (6 - digits.length) ' ' ++ digits ++ ['\t']

namespace ShowingStyle

/-- A character within a line. -/
def inner (o : ShowingStyle) (c : Char) : Octets :=
  if c == '\t' then (if o.tabs then "^I".toList else [c])
  else if o.hidden then hiddenText c
  else [c]

/-- Shows characters; what is shown comes in pieces, the last one first. -/
def go (o : ShowingStyle) : ShowingState → List Octets → Octets → ShowingState × List Octets
  | s, out, [] => (s, out)
  | s, out, c :: rest =>
    let held : Octets :=
      if ! s.heldReturn then [] else if c == '\n' then "^M".toList else ['\r']
    let s := { s with heldReturn := false }
    if c == '\n' then
      let ending : Octets := if o.ends then ['$', '\n'] else ['\n']
      match s.blank with
      | none => go o { s with blank := some 0 } ((held ++ ending) :: out) rest
      | some n =>
        if o.squeezes && 1 ≤ n then go o { s with blank := some (n + 1) } out rest
        else
          let line := s.line + 1
          if o.numbers then
            go o { s with line, blank := some (n + 1) } (ending :: lineNumber line :: out) rest
          else go o { s with blank := some (n + 1) } ((held ++ ending) :: out) rest
    else
      let (s, start) : ShowingState × Octets :=
        if s.blank.isNone then (s, held)
        else if o.numbers || o.numbersFull then
          ({ s with line := s.line + 1, blank := none }, held ++ lineNumber (s.line + 1))
        else ({ s with blank := none }, held)
      if o.ends && ! o.hidden && c == '\r' then
        go o { s with heldReturn := true } (start :: out) rest
      else go o s (o.inner c :: start :: out) rest

/-- Shows characters. -/
def apply (o : ShowingStyle) (s : ShowingState) (text : Octets) : ShowingState × Octets :=
  let (s, out) := o.go s [] text
  (s, out.reverse.flatten)

end ShowingStyle

/-- The open file behind a channel. -/
def openFileOf? (w : World) (n : Nat) : Option (OpenFile × Nat × Bool) :=
  match w.channel n with
  | .file file position _ _ append => some (file, position, append)
  | _ => none

/-- Whether reading a channel would read what is written to the standard output. -/
def readsOutput (w : World) (streams : List (Nat × Nat)) (source : Nat) : Bool :=
  match (streams.lookup 1).bind (openFileOf? w), openFileOf? w source with
  | some (file, position, append), some (other, start, _) =>
    let isSame := match file, other with
      | .named l, .named m => (w.tree.names l).contains m
      | x, y => x = y
    isSame && start < (w.contentOf file).length && (append || start ≤ position)
  | _, _ => false

/-- Shows files one behind the other. -/
def Tool.cat : Tool := fun call =>
  let table := optionTable "AbeEnstTuv"
    ["b=number-nonblank", "n=number", "s=squeeze-blank", "v=show-nonprinting", "E=show-ends",
      "T=show-tabs", "A=show-all"]
  withOptions table call fun a => do
    let o := ShowingStyle.ofArguments a
    let show_ (s : ShowingState) (piece : Octets) : Work (ShowingState × Bool) := do
      if o.isPlain then
        call.put piece
        return (s, (← get).isNone)
      else
        let (s, text) := o.apply s piece
        call.put text
        return (s, (← get).isNone)
    let (s, code) ← a.inputs.foldlM (fun (s, code) arg => do
      match ← call.openToRead arg with
      | .error why =>
        call.blames arg why
        return (s, 1)
      | .ok n =>
        if readsOutput (← Work.world) (← Work.streams) n then
          call.blames arg "input file is output file".toList
          return (s, 1)
        else
          match ← call.eachPiece n s show_ with
          | .ok s => return (s, code)
          | .error why =>
            call.blames arg why
            return (s, 1)) (⟨0, some 0, false⟩, 0)
    if s.heldReturn then call.put ['\r']
    if (← Work.streams).lookup 0 = none && a.inputs.contains ['-'] then
      call.complain ("closing standard input: ".toList ++ Fault.closed.reason)
    return code

/-- Texts between places where a separator stands, which is kept behind each of them, or with
`before` in front of it. -/
def separated (separator : Octets) (before : Bool) : Nat → Octets → Octets → List Octets
  | 0, part, rest => [part.reverse ++ rest]
  | _ + 1, part, [] => if part.isEmpty then [] else [part.reverse]
  | n + 1, part, c :: rest =>
    if separator.isPrefixOf (c :: rest) then
      let behind := (c :: rest).drop separator.length
      if before then
        let others := separated separator before n separator.reverse behind
        if part.isEmpty then others else part.reverse :: others
      else (part.reverse ++ separator) :: separated separator before n [] behind
    else separated separator before n (c :: part) rest

/-- Shows the lines of files from the last to the first. -/
def Tool.tac : Tool := fun call =>
  withOptions (optionTable "brs:" ["b=before", "r=regex", "s=separator:"]) call fun a => do
    let separator := (a.value? "s").getD ['\n']
    let separator := if separator.isEmpty then [Char.ofNat 0] else separator
    forAll a.inputs fun arg => do
      match ← call.openToRead arg with
      | .error why =>
        call.fails ("failed to open ".toList ++ quotedName arg ++ " for reading: ".toList ++ why)
      | .ok n =>
        match ← call.readChannel n with
        | .error why => call.fails (arg ++ ": read error: ".toList ++ why)
        | .ok text =>
          call.put (separated separator (a.has "b") (text.length + 1) [] text).reverse.flatten
          return true

/-- Writes its input to files and to its output. -/
def Tool.tee : Tool := fun call =>
  let table := optionTable "aip" ["a=append", "i=ignore-interrupts", "output-error?"]
  withOptions table call fun a => do
    let (targets, code) ← a.operands.foldlM (fun (targets, code) arg => do
      match ← call.openFile arg (if a.has "a" then .append else .write) with
      | .ok n => return (targets ++ [(arg, n)], code)
      | .error e =>
        call.blames arg (reason e).toList
        return (targets, 1)) (([], 0) : List (Octets × Nat) × Nat)
    match ← call.openToRead ['-'] with
    | .error why =>
      call.blames "read error".toList why
      return 1
    | .ok n =>
      match ← call.eachPiece n code fun code piece => do
        call.put piece
        let code ← targets.foldlM (fun code (arg, n) => do
          match ← Work.lift (Kernel.emit n piece) with
          | .ok () => return code
          | .error e =>
            call.blames arg e.reason
            return 1) code
        return (code, true) with
      | .ok code => return code
      | .error why =>
        call.blames "read error".toList why
        return 1

/-! ## Starts and ends -/

/-- How much of a file is shown. -/
structure Portion where
  bytes : Bool
  count : Nat
  /-- A sign in front of the number. -/
  sign : Option Char

/-- The options of `head` and `tail`. -/
def portionOptions : OptionTable :=
  optionTable "c:Ffn:qs:vz"
    ["c=bytes:", "n=lines:", "q=quiet", "q=silent", "v=verbose", "z=zero-terminated",
      "follow?", "retry", "pid:", "s=sleep-interval:", "max-unchanged-stats:"]

/-- Puts options in the place of an argument like `-5` or `-20c`, which can only be the first
one. -/
def spellOutNumber (signs : String) (args : List Octets) : List Octets :=
  match args with
  | (sign :: rest) :: more =>
    let digits := rest.takeWhile Char.isDigit
    let letters := rest.drop digits.length
    let isOld := signs.toList.contains sign && ! digits.isEmpty &&
      letters.all ("bckmlqvz".toList.contains ·)
    if ! isOld then args
    else
      let kind := if letters.any ("bckm".toList.contains ·) then 'c' else 'n'
      let unit := letters.filter ("bkm".toList.contains ·)
      let others := letters.filter ("qvz".toList.contains ·)
      let amount := (if sign == '+' then ['+'] else []) ++ digits ++ unit
      ['-', kind] :: amount :: others.map (fun c => ['-', c]) ++ more
  | _ => args

/-- The portion that options ask for, or what is wrong. -/
def Portion.ofArguments (a : Arguments) : Except Octets Portion :=
  let (kind, text) := (a.options.reverse.find? fun o => o.1 = "c" || o.1 = "n").getD
    ("n", "10".toList)
  let bytes := kind = "c"
  let sign := text.head?.filter fun c => c == '-' || c == '+'
  match amount? (if sign.isSome then text.drop 1 else text) with
  | some count => .ok ⟨bytes, count, sign⟩
  | none =>
    .error ((if bytes then "invalid number of bytes: " else "invalid number of lines: ").toList ++
      quotedName text)

/-- How much of a stream `head` takes at once. -/
def headBlock : Nat := 8192

/-- Shows the first characters of a channel. The first argument bounds the number of reads. -/
def showBytes (call : Call) (n : Nat) : Nat → Nat → Work (Except Octets Unit)
  | 0, _ => return .ok ()
  | fuel + 1, count => do
    if count = 0 then return .ok ()
    else
      match ← Work.lift (Kernel.receive n (min count headBlock)) with
      | .error e => return .error e.reason
      | .ok [] => return .ok ()
      | .ok piece =>
        call.put piece
        showBytes call n fuel (count - piece.length)

/-- The text up to the end of the last of some lines, and how many of them are missing. -/
def takeRecords (ending : Char) : Nat → Octets → Octets × Nat
  | 0, _ => ([], 0)
  | n + 1, [] => ([], n + 1)
  | n + 1, c :: rest =>
    let (taken, missing) := takeRecords ending (if c == ending then n else n + 1) rest
    (c :: taken, missing)

/-- Shows the first lines of a channel. What was taken of a file and not shown is given back. The
first argument bounds the number of reads. -/
def showRecords (call : Call) (ending : Char) (n : Nat) : Nat → Nat → Work (Except Octets Unit)
  | 0, _ => return .ok ()
  | fuel + 1, count => do
    if count = 0 then return .ok ()
    else
      match ← Work.lift (Kernel.receive n headBlock) with
      | .error e => return .error e.reason
      | .ok [] => return .ok ()
      | .ok piece =>
        let (taken, missing) := takeRecords ending count piece
        call.put taken
        if missing = 0 then
          if (openFileOf? (← Work.world) n).isSome then
            Work.change fun w => w.unread n (piece.drop taken.length)
          return .ok ()
        else showRecords call ending n fuel missing

/-- All but the end of a text. -/
def Portion.allButEnd (p : Portion) (ending : Char) (text : Octets) : Octets :=
  if p.bytes then text.take (text.length - p.count)
  else
    let records := recordsOf ending text
    (records.take (records.length - p.count)).flatten

/-- The end of a text; with a plus sign, all from a place on. -/
def Portion.ofEnd (p : Portion) (ending : Char) (text : Octets) : Octets :=
  let cut {α : Type} (xs : List α) : List α :=
    xs.drop (if p.sign = some '+' then p.count - 1 else xs.length - p.count)
  if p.bytes then cut text else (cut (recordsOf ending text)).flatten

/-- Shows a portion of each input, under its name if there are several. -/
def portionTool (portion : Portion → Char → Nat → Work (Except Octets Unit)) : Tool := fun call =>
  withOptions portionOptions call fun a => do
    match Portion.ofArguments a with
    | .error message => call.gives 1 message
    | .ok p =>
      let headed := (1 < a.operands.length || a.has "v") && a.lastOf "qv" ≠ some 'q'
      let (_, code) ← a.inputs.foldlM (fun (count, code) arg => do
        let name := if arg = ['-'] then "standard input".toList else arg
        match ← call.openToRead arg with
        | .error why =>
          call.complain ("cannot open ".toList ++ quotedName name ++ " for reading: ".toList ++ why)
          return (count, 1)
        | .ok n =>
          if headed then
            call.put ((if 0 < count then ['\n'] else []) ++ "==> ".toList ++ name ++
              " <==\n".toList)
          match ← portion p a.recordEnd n with
          | .ok () => return (count + 1, code)
          | .error why =>
            call.complain (aboutText "error reading" name why)
            return (count + 1, 1)) ((0, 0) : Nat × Nat)
      return code

/-- Shows the starts of files. -/
def Tool.head : Tool := fun call =>
  let portion (p : Portion) (ending : Char) (n : Nat) : Work (Except Octets Unit) := do
    if p.sign = some '-' then
      match ← call.readChannel n with
      | .error why => return .error why
      | .ok text => return .ok (← call.put (p.allButEnd ending text))
    else if p.bytes then showBytes call n Kernel.patience p.count
    else showRecords call ending n Kernel.patience p.count
  portionTool portion { call with args := spellOutNumber "-" call.args }

/-- Shows the ends of files. -/
def Tool.tail : Tool := fun call =>
  let portion (p : Portion) (ending : Char) (n : Nat) : Work (Except Octets Unit) := do
    match ← call.readChannel n with
    | .error why => return .error why
    | .ok text => return .ok (← call.put (p.ofEnd ending text))
  portionTool portion { call with args := spellOutNumber "-+" call.args }

end Bundler.Shell
