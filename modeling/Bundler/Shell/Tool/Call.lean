import Bundler.Shell.Arithmetic
import Bundler.Shell.Lookup
import Bundler.Shell.Task
/-!
# Calling a tool

A tool gets its arguments in a `Call`, works as a process of its own, and ends with an exit code.
Options may stand anywhere among the arguments up to `--`, and long names of options may be cut as
long as they are not mistaken for others. A tool goes on when its output cannot be written, and
fails at its end.
-/

namespace Bundler.Shell

/-- What a tool is started with. -/
structure Call where
  name : Octets
  args : List Octets
  environment : List (String × Octets)
  directory : Path
  /-- The permission bits that new files do not get. -/
  mask : Nat

/-- Work of a tool. It remembers why its output could not be written. -/
abbrev Work := StateT (Option Fault) Kernel

/-- A tool; it ends with an exit code. -/
abbrev Tool := Call → Work Nat

namespace Work

/-- Does as the process that the tool is. -/
def lift {α : Type} (action : Kernel α) : Work α := StateT.lift action

/-- The world. -/
def world : Work World := lift get

/-- The tree of files. -/
def tree : Work FileTree := do return (← world).tree

/-- Changes the world. -/
def change (f : World → World) : Work Unit := lift (modify f)

/-- The streams of the tool. -/
def streams : Work (List (Nat × Nat)) := do return (← lift Kernel.self).streams

end Work

namespace Call

/-- Writes to the standard output, unless that has failed before. -/
def put (_ : Call) (text : Octets) : Work Unit := do
  if (← get).isNone && ! text.isEmpty then
    match ← Work.lift (Kernel.put 1 text) with
    | .ok () => pure ()
    | .error e => set (some e)

/-- Writes a line of a message. -/
def note (_ : Call) (text : Octets) : Work Unit := do
  let _ ← Work.lift (Kernel.put 2 (text ++ ['\n']))

/-- Writes a message in the name of the tool. -/
def complain (call : Call) (message : Octets) : Work Unit :=
  call.note (call.name ++ ": ".toList ++ message)

/-- Says where one finds how the tool is called. -/
def pointToHelp (call : Call) : Work Unit :=
  call.note ("Try '".toList ++ call.name ++ " --help' for more information.".toList)

/-- Writes a message about a wrong call and ends with a code. -/
def refuseWith (call : Call) (code : Nat) (message : Octets) : Work Nat := do
  call.complain message
  call.pointToHelp
  return code

/-- Writes a message about a wrong call and ends. -/
def refuse (call : Call) (message : Octets) : Work Nat := call.refuseWith 1 message

/-- The path of an argument. -/
def path (call : Call) (arg : Octets) : Path := pathOf call.directory arg

/-- What is at the path of an argument. -/
def status? (call : Call) (arg : Octets) : Work (Option Status) := do
  return (← Work.world).status? (← Work.streams) (call.path arg)

/-- The location of an argument. -/
def locate? (call : Call) (arg : Octets) : Work (Option Location) := do
  return ((← Work.tree).locate (call.path arg)).toOption

/-- Opens a file, which gets a channel. -/
def openFile (call : Call) (arg : Octets) (mode : OpenMode) : Work (Except IoError Nat) :=
  Work.lift (Kernel.openFile (call.path arg) mode call.mask)

/-- Opens a file for reading; a dash stands for the standard input. -/
def openToRead (call : Call) (arg : Octets) : Work (Except Octets Nat) := do
  if arg = ['-'] then
    match ← Work.lift (Kernel.stream? 0) with
    | some n => return .ok n
    | none => return .error Fault.closed.reason
  else
    match ← call.openFile arg .read with
    | .ok n => return .ok n
    | .error e => return .error (reason e).toList

/-- Reads all that is left of a channel. -/
def readChannel (_ : Call) (n : Nat) : Work (Except Octets Octets) := do
  return (← Work.lift (Kernel.receiveAll n)).mapError Fault.reason

/-- The content of a file, or of the standard input for a dash. -/
def read (call : Call) (arg : Octets) : Work (Except Octets Octets) := do
  match ← call.openToRead arg with
  | .error e => return .error e
  | .ok n => call.readChannel n

/-- Reads a channel piece by piece, as long as the work on them goes on. The argument behind the work
bounds their number. -/
def eachPieceWithin {σ : Type} (call : Call) (n : Nat) (work : σ → Octets → Work (σ × Bool)) :
    Nat → σ → Work (Except Octets σ)
  | 0, s => return .ok s
  | fuel + 1, s => do
    match ← Work.lift (Kernel.receive n Kernel.blockSize) with
    | .error e => return .error e.reason
    | .ok [] => return .ok s
    | .ok piece =>
      let (s, goesOn) ← work s piece
      if goesOn then call.eachPieceWithin n work fuel s else return .ok s

/-- Reads a channel piece by piece, as long as the work on them goes on. -/
def eachPiece {σ : Type} (call : Call) (n : Nat) (s : σ) (work : σ → Octets → Work (σ × Bool)) :
    Work (Except Octets σ) :=
  call.eachPieceWithin n work Kernel.patience s

/-- Writes a whole file. -/
def writeFile (call : Call) (arg : Octets) (content : Octets) : Work (Except Octets Unit) := do
  match ← call.openFile arg .write with
  | .error e => return .error (reason e).toList
  | .ok n => return (← Work.lift (Kernel.emit n content)).mapError Fault.reason

/-- Takes a line from a channel, without its end. The first argument bounds how often it has to wait,
and the last one is what was taken already. -/
def lineWithin (n : Nat) : Nat → Octets → Kernel Octets
  | 0, before => return before
  | fuel + 1, before => do
    match ← Kernel.receive n Kernel.blockSize with
    | .error _ => return before
    | .ok [] => return before
    | .ok more =>
      let text := before ++ more
      if text.contains '\n' then
        let line := text.takeWhile (· ≠ '\n')
        modify fun w => w.unread n (text.drop (line.length + 1))
        return line
      else lineWithin n fuel text

/-- Asks a question, and says whether the line of the standard input that follows agrees. -/
def confirms (call : Call) (question : Octets) : Work Bool := do
  let _ ← Work.lift (Kernel.put 2 (call.name ++ ": ".toList ++ question ++ "? ".toList))
  match ← Work.lift (Kernel.stream? 0) with
  | none => return false
  | some n =>
    let line ← Work.lift (lineWithin n Kernel.patience [])
    return line.head?.any fun c => c == 'y' || c == 'Y'

end Call

/-! ## Ends -/

/-- The exit codes of tools whose output could not be written, where they are not 1. -/
def outputFailureCodes : List (String × Nat) :=
  [("ls", 2), ("sort", 2), ("cmp", 2), ("expr", 3), ("test", 2), ("[", 2), ("env", 125), ("diff", 2),
    ("grep", 2), ("sed", 4)]

/-- Runs a tool; it fails if its output could not be written. -/
def Tool.run (tool : Tool) (call : Call) : Kernel Nat := do
  let (code, fault) ← (tool call).run none
  match fault with
  | none => return code
  | some fault =>
    let name := String.ofList (lastPiece call.name)
    let say (message : Octets) : Kernel Unit := do
      let _ ← Kernel.put 2 (call.name ++ ": ".toList ++ message ++ ['\n'])
    if name = "sort" then
      say ("fflush failed: 'standard output': ".toList ++ fault.reason)
      say "write error".toList
    else if name = "cat" && fault = .closed then
      say ("standard output: ".toList ++ fault.reason)
    else say ("write error: ".toList ++ fault.reason)
    return (outputFailureCodes.lookup name).getD 1
where
  /-- What follows the last slash. -/
  lastPiece (s : Octets) : Octets := (s.reverse.takeWhile (· ≠ '/')).reverse

/-! ## Messages -/

/-- A text between single quotes. -/
def quotedName (s : Octets) : Octets := '\x27' :: s ++ ['\x27']

/-- A message about a file. -/
def aboutText (what : String) (name : Octets) (why : Octets) : Octets :=
  what.toList ++ ' ' :: quotedName name ++ ": ".toList ++ why

/-- A message about a file. -/
def about (what : String) (name : Octets) (e : IoError) : Octets :=
  aboutText what name (reason e).toList

/-! ## Options -/

/-- The options of a call with their values, in the order in which they stand, and the other
arguments. Options are named by their letter, or by their long name if they have none. -/
structure Arguments where
  options : List (String × Octets)
  operands : List Octets

namespace Arguments

/-- Whether an option is given. -/
def has (a : Arguments) (name : String) : Bool := a.options.any fun o => o.1 = name

/-- Whether one of some options is given, each a letter. -/
def hasAny (a : Arguments) (letters : String) : Bool :=
  letters.toList.any fun c => a.has (String.ofList [c])

/-- The last value of an option. -/
def value? (a : Arguments) (name : String) : Option Octets := a.options.reverse.lookup name

/-- The last of some options, each a letter, that is given. -/
def lastOf (a : Arguments) (letters : String) : Option Char :=
  (a.options.reverse.findSome? fun o =>
    match o.1.toList with
    | [c] => if letters.toList.contains c then some c else none
    | _ => none)

end Arguments

/-- Whether an option takes a value. -/
inductive Wants where
  | nothing
  | value
  /-- A value that stands in the same argument, or none. -/
  | perhaps
  deriving DecidableEq, Repr

/-- An option: its letter, if it has one, and its long name, if it has one. -/
structure OptionSpec where
  letter : Option Char
  long : String
  wants : Wants

/-- The name of an option. -/
def OptionSpec.key (o : OptionSpec) : String :=
  match o.letter with
  | some c => String.ofList [c]
  | none => o.long

/-- Options that are read alike. -/
abbrev OptionTable := List OptionSpec

/-- Options that only have letters; a letter with a colon behind it takes a value. -/
def letterOptions : List Char → OptionTable
  | [] => []
  | c :: ':' :: rest => ⟨some c, "", .value⟩ :: letterOptions rest
  | c :: rest => ⟨some c, "", .nothing⟩ :: letterOptions rest

/-- The long names of options, in words: `n=lines:` is a long name of `n`, which takes a value, and
`rfc?` one of no letter, which may have a value. -/
def longOption (word : String) : OptionSpec :=
  let s := word.toList
  let (letter, name) : Option Char × List Char :=
    match s with
    | c :: '=' :: rest => (some c, rest)
    | _ => (none, s)
  match name.getLast? with
  | some ':' => ⟨letter, String.ofList name.dropLast, .value⟩
  | some '?' => ⟨letter, String.ofList name.dropLast, .perhaps⟩
  | _ => ⟨letter, String.ofList name, .nothing⟩

/-- A table of options: letters, and long names. -/
def optionTable (letters : String) (long : List String) : OptionTable :=
  letterOptions letters.toList ++ long.map longOption ++
    [⟨none, "help", .nothing⟩, ⟨none, "version", .nothing⟩]

/-- Reads the letters of one argument. `next` is the argument behind it; the flag of the result says
whether it was used as a value. -/
def readLetters (table : OptionTable) (next : Option Octets) :
    Octets → Except Octets (List (String × Octets) × Bool)
  | [] => .ok ([], false)
  | c :: rest =>
    match table.find? fun o => o.letter = some c && o.long = "" with
    | none => .error ("invalid option -- ".toList ++ quotedName [c])
    | some o =>
      if o.wants = .nothing then
        (readLetters table next rest).map fun (options, used) => ((o.key, []) :: options, used)
      else if ! rest.isEmpty then .ok ([(o.key, rest)], false)
      else
        match next with
        | some value => .ok ([(o.key, value)], true)
        | none => .error ("option requires an argument -- ".toList ++ quotedName [c])

/-- The option that a long name means, which may be cut. -/
def findLong (table : OptionTable) (name : Octets) : Except Octets OptionSpec :=
  let longs := table.filter fun o => o.long ≠ ""
  match longs.find? fun o => o.long.toList = name with
  | some o => .ok o
  | none =>
    let written := quotedName ("--".toList ++ name)
    match longs.filter fun o => name.isPrefixOf o.long.toList with
    | [] => .error ("unrecognized option ".toList ++ written)
    | o :: more =>
      if more.all fun p => p.key = o.key && p.wants = o.wants then .ok o
      else
        .error ("option ".toList ++ written ++ " is ambiguous; possibilities:".toList ++
          (o :: more).flatMap fun p => ' ' :: quotedName ("--".toList ++ p.long.toList))

/-- Reads an option with a long name. -/
def readLong (table : OptionTable) (next : Option Octets) (s : Octets) :
    Except Octets (List (String × Octets) × Bool) := do
  let name := s.takeWhile (· ≠ '=')
  let value? := match s.drop name.length with
    | _ :: value => some value
    | [] => none
  let o ← findLong table name
  let written := quotedName ("--".toList ++ o.long.toList)
  match o.wants, value?, next with
  | .nothing, none, _ => return ([(o.key, [])], false)
  | .nothing, some _, _ =>
    throw ("option ".toList ++ written ++ " doesn't allow an argument".toList)
  | _, some value, _ => return ([(o.key, value)], false)
  | .perhaps, none, _ => return ([(o.key, [])], false)
  | .value, none, some value => return ([(o.key, value)], true)
  | .value, none, none => throw ("option ".toList ++ written ++ " requires an argument".toList)

/-- Parts options from other arguments; `skip` says that the first argument is a value that was
used. Where options have to come `first`, the first other argument ends them. -/
def readArguments (table : OptionTable) (first : Bool) :
    (skip : Bool) → List Octets → Except Octets Arguments
  | _, [] => .ok ⟨[], []⟩
  | true, _ :: rest => readArguments table first false rest
  | false, arg :: rest =>
    let among (read : Except Octets (List (String × Octets) × Bool)) :
        Except Octets Arguments := do
      let (options, used) ← read
      let a ← readArguments table first used rest
      return { a with options := options ++ a.options }
    if arg = "--".toList then .ok ⟨[], rest⟩
    else
      match arg with
      | '-' :: '-' :: name => among (readLong table rest.head? name)
      | '-' :: c :: letters => among (readLetters table rest.head? (c :: letters))
      | _ =>
        if first then .ok ⟨[], arg :: rest⟩
        else do
          let a ← readArguments table first false rest
          return { a with operands := arg :: a.operands }

/-- Does the work of a tool with its options; a wrong call ends with a code. -/
def withOptionsOr (code : Nat) (first : Bool) (table : OptionTable) (call : Call)
    (work : Arguments → Work Nat) : Work Nat :=
  match readArguments table first false call.args with
  | .ok a => if a.has "help" || a.has "version" then return 0 else work a
  | .error message => call.refuseWith code message

/-- Does the work of a tool with its options. -/
def withOptions (table : OptionTable) (call : Call) (work : Arguments → Work Nat) : Work Nat :=
  withOptionsOr 1 false table call work

/-- Says what went wrong, which makes work fail. -/
def Call.fails (call : Call) (message : Octets) : Work Bool := do
  call.complain message
  return false

/-- Says what went wrong and ends with a failure. -/
def Call.gives (call : Call) (code : Nat) (message : Octets) : Work Nat := do
  call.complain message
  return code

/-- Does something for each of some things, and ends with a failure if one of them failed. -/
def forAll {α : Type} (xs : List α) (work : α → Work Bool) : Work Nat :=
  xs.foldlM (fun code x => do return if ← work x then code else 1) 0

end Bundler.Shell
