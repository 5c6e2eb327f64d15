import Bundler.Shell.Condition
import Bundler.Shell.Expand
import Bundler.Shell.Format
import Bundler.Shell.Jobs
import Bundler.Shell.Lookup
/-!
# Commands that the shell does itself

The commands that read or change the state of the shell. Each gets its arguments and gives an exit
code. Those that run other commands are not among them.
-/

namespace Bundler.Shell

/-- A command of the shell. -/
abbrev Builtin := List Octets → Action Nat

namespace Builtin

/-- Writes to the standard output. A stream that is closed is a failure. -/
def put (text : Octets) : Action Nat := do
  if ← Action.write 1 text then return 0
  else
    Action.warn (((← Action.session).command.getD []) ++ ": I/O error".toList)
    return 1

/-- Reads the options in front of arguments. A letter with a colon behind it in `letters` takes a
value: what follows it in its argument, or the next argument. The first argument bounds the number of
options. -/
def optionsWithin (letters : Octets) :
    Nat → List Octets → Action (List (Char × Octets) × List Octets)
  | 0, args => return ([], args)
  | n + 1, args =>
    match args with
    | ['-', '-'] :: rest => return ([], rest)
    | ('-' :: c :: more) :: rest => do
      if c == ':' || ! letters.contains c then Action.fail ("Illegal option -".toList ++ [c])
      let valued := (letters.drop (letters.idxOf c + 1)).head? = some ':'
      if valued then
        match more, rest with
        | [], [] => Action.fail ("No arg for -".toList ++ c :: " option".toList)
        | [], value :: rest =>
          let (options, args) ← optionsWithin letters n rest
          return ((c, value) :: options, args)
        | value, rest =>
          let (options, args) ← optionsWithin letters n rest
          return ((c, value) :: options, args)
      else
        let (options, args) ←
          optionsWithin letters n (if more.isEmpty then rest else ('-' :: more) :: rest)
        return ((c, []) :: options, args)
    | _ => return ([], args)

/-- Reads the options in front of arguments. -/
def options (letters : String) (args : List Octets) :
    Action (List (Char × Octets) × List Octets) :=
  optionsWithin letters.toList (Octets.total (args.map List.length) + 1) args

/-- A command that has no options. -/
def withoutOptions (work : Builtin) : Builtin := fun args => do
  let (_, args) ← options "" args
  work args

/-! ## Leaving -/

/-- How many loops a command is about. -/
def levels (args : List Octets) : Action Nat := do
  match args.head? with
  | none => return 1
  | some s =>
    let n ← Action.natural s
    if n = 0 then Action.failNumber s else return n

/-- Leaves loops. Outside of loops it does nothing. -/
def leaveLoops : Builtin := fun args => do
  let n ← levels args
  let loops := (← Action.session).loops
  Action.setCode 0
  if loops = 0 then return 0 else throw (.broken (min n loops))

/-- Goes on with a loop. Outside of loops it does nothing. -/
def nextRound : Builtin := fun args => do
  let n ← levels args
  let loops := (← Action.session).loops
  Action.setCode 0
  if loops = 0 then return 0 else throw (.continued (min n loops))

/-- The code that the arguments of a command give, or else the last one. -/
def codeOf (args : List Octets) : Action Nat := do
  match args.head? with
  | none => return (← Action.session).code
  | some s => Action.natural s

/-- Leaves a function or script. -/
def leaveScript : Builtin := fun args => do
  Action.setCode (← codeOf args)
  throw .returned

/-- Ends the shell. What is done on a signal ends it with the code from before. -/
def exit : Builtin := fun args => do
  match args, (← Action.session).codeBefore with
  | [], some n => Action.setCode n
  | _, _ => Action.setCode (← codeOf args)
  throw .exited

/-! ## Output -/

/-- Writes its arguments. -/
def echo : Builtin := fun args => put (echoText args)

/-- Writes formatted arguments. -/
def printf : Builtin := withoutOptions fun args => do
  match args with
  | [] => Action.fail "usage: printf format [arg ...]".toList
  | format :: args =>
    let p := printFormat format args
    p.warnings.forM Action.warn
    let code ← put p.written.reverse
    match p.mistake with
    | some mistake => Action.fail mistake
    | none => return if p.warnings.isEmpty then code else 1

/-- Answers a condition; in brackets, the last argument is the closing one. -/
def test (brackets : Bool) : Builtin := fun args => do
  if brackets && args.getLast? ≠ some [']'] then Action.fail "missing ]".toList
  else
    let words := if brackets then args.dropLast else args
    let streams := (← Action.lift Kernel.self).streams
    let around := ⟨← Action.world, streams, (← Action.session).directory⟩
    match condition around words with
    | .ok answer => return if answer then 0 else 1
    | .error message => Action.fail message

/-! ## Directories -/

/-- The directory that a relative name stands for: the first one of that name in the directories of
`CDPATH`, and whether that has to be shown; without one, the name itself. -/
def inSearchPath (s : Session) (tree : FileTree) (searchPath name : Octets) : Octets × Bool :=
  let places := (Octets.pieces (· == ':') searchPath).map fun dir =>
    if dir.isEmpty then (name, false) else (dir ++ '/' :: name, true)
  (places.find? fun p => tree.isDirectory (pathOf s.directory p.1)).getD (name, false)

/-- Whether a name of a directory says itself where it starts. -/
def isRooted (name : Octets) : Bool :=
  match name with
  | '/' :: _ => true
  | ['.'] => true
  | '.' :: '/' :: _ => true
  | ['.', '.'] => true
  | '.' :: '.' :: '/' :: _ => true
  | _ => false

/-- Goes to another directory. -/
def cd : Builtin := fun args => do
  let (_, args) ← options "LP" args
  let s ← Action.session
  let back := args.head? = some ['-']
  let dir ← match args.head? with
    | none => do pure ((← Action.valueOf "HOME").getD [])
    | some dir => if back then pure ((← Action.valueOf "OLDPWD").getD []) else pure dir
  let tree := (← Action.world).tree
  let (target, shown) ←
    if isRooted dir then pure (dir, false)
    else
      let name := if dir.isEmpty then ['.'] else dir
      match ← Action.valueOf "CDPATH" with
      | some searchPath => pure (inSearchPath s tree searchPath name)
      | none => pure (name, false)
  let p := (pathOf s.directory target).normalize
  if tree.isDirectory p then
    let change (name : String) (p : Path) : Action Unit :=
      Action.putVariable name (some ⟨some (Octets.ofText p.text), true, false⟩)
    change "OLDPWD" s.directory
    change "PWD" p
    Action.update fun s => { s with directory := p }
    if back || shown then put (Octets.ofText p.text ++ ['\n']) else return 0
  else Action.fail ("can't cd to ".toList ++ dir)

/-- Shows the working directory. -/
def pwd : Builtin := fun args => do
  let _ ← options "LP" args
  put (Octets.ofText (← Action.session).directory.text ++ ['\n'])

/-- The permission bits that a letter stands for, seen from bits that there are. -/
def permissionBits (bits : Nat) : Char → Nat
  | 'r' => 4
  | 'w' => 2
  | 'x' => 1
  | 'u' => bits / 64 % 8
  | 'g' => bits / 8 % 8
  | 'o' => bits % 8
  | 'X' => if bits &&& 0o111 ≠ 0 then 1 else 0
  | _ => 0

/-- The bits of the classes of users that letters stand for, each for one right. -/
def classBits (letters : Octets) : Nat :=
  if letters.isEmpty then 0o111
  else letters.foldl (fun n c =>
    n ||| (match c with
      | 'u' => 0o100
      | 'g' => 0o010
      | 'o' => 0o001
      | _ => 0o111)) 0

/-- Changes permission bits as a text says, like `u=rwx,g-w`. The first argument bounds the number of
changes; the last one holds the bits before and what has become of them. -/
def changeBits : Nat → Octets → Nat → Nat → Nat → Option Nat
  | 0, _, _, _, after => some after
  | n + 1, s, classes, before, after =>
    if s.isEmpty then some after
    else
      let letters := s.takeWhile ("augo".toList.contains ·)
      let rest := s.drop letters.length
      let classes := if classes = 0 || ! letters.isEmpty then classBits letters ||| classes else classes
      match rest with
      | [] => some after
      | op :: rest =>
        if ! "=+-".toList.contains op then none
        else
          let rights := rest.takeWhile ("rwxugoXs".toList.contains ·)
          let bits := (rights.foldl (fun b c => b ||| permissionBits before c) 0) * classes
          let after :=
            if op == '-' then after &&& (0o777 - bits)
            else if op == '+' then after ||| bits
            else bits ||| (after &&& (0o777 - classes * 7))
          match rest.drop rights.length with
          | [] => some after
          | ',' :: rest => changeBits n rest 0 before after
          | c :: rest =>
            if "=+-".toList.contains c then changeBits n (c :: rest) classes before after else none

/-- A number in base eight, with at least four digits. -/
def octal (n : Nat) : Octets :=
  let digits := Nat.toDigits 8 n
  List.replicate (4 - digits.length) '0' ++ digits

/-- The rights that a mask leaves, like `u=rwx,g=rx,o=`. -/
def shownRights (mask : Nat) : Octets :=
  let rights (bits : Nat) : Octets :=
    [(4, 'r'), (2, 'w'), (1, 'x')].filterMap fun (b, c) => if bits &&& b = 0 then some c else none
  "u=".toList ++ rights (mask / 64) ++ ",g=".toList ++ rights (mask / 8) ++ ",o=".toList ++
    rights mask

/-- Shows or sets the permission bits that new files do not get. -/
def umask : Builtin := fun args => do
  let (options, args) ← options "S" args
  let mask := (← Action.session).mask
  let set (n : Nat) : Action Nat := do
    Action.update fun s => { s with mask := n % 0o1000 }
    return 0
  match args.head? with
  | none => put ((if options.isEmpty then octal mask else shownRights mask) ++ ['\n'])
  | some text =>
    if text.head?.any Char.isDigit then
      if text.all (Octets.isDigitOf 8) then set (Octets.valueOf 8 text) else Action.failNumber text
    else
      let bits := 0o777 - mask
      match changeBits (text.length + 1) text 0 bits bits with
      | some bits => set (0o777 - bits % 0o1000)
      | none => Action.fail ("Illegal mode: ".toList ++ text)

/-! ## Variables -/

/-- A text between single quotes that the shell reads back. -/
def requoted (s : Octets) : Octets :=
  '\x27' :: s.flatMap (fun c => if c == '\x27' then "'\"'\"'".toList else [c]) ++ ['\x27']

/-- Shows variables, in order. -/
def showVariables (start : String) (keep : Variable → Bool) : Action Nat := do
  let all := (← Action.session).bindings.filter fun e => keep e.2
  let sorted := all.mergeSort fun a b => a.1 ≤ b.1
  put (sorted.flatMap fun (name, v) =>
    start.toList ++ name.toList ++
      (match v.value with
        | some value => '=' :: requoted value
        | none => []) ++ ['\n'])

/-- Marks variables, and sets those with a value. -/
def mark (start : String) (keep : Variable → Bool) (f : Variable → Variable) : Builtin :=
  fun args => do
    let (shown, args) ← options "p" args
    if args.isEmpty || ! shown.isEmpty then showVariables start keep
    else
      args.forM fun arg => do
        let name := String.ofList (arg.takeWhile (· ≠ '='))
        match arg.drop name.length with
        | _ :: value => Action.setVariable name value
        | [] => pure ()
        Action.markVariable name f
      return 0

/-- Marks variables for programs. -/
def exportVariables : Builtin := mark "export " Variable.exported fun v => { v with exported := true }

/-- Protects variables. -/
def readonly : Builtin := mark "readonly " Variable.readonly fun v => { v with readonly := true }

/-- Makes variables belong to a function. -/
def localVariables : Builtin := fun args => do
  if (← Action.session).locals.isEmpty then Action.fail "not in a function".toList
  else
    args.forM fun arg => do
      let name := String.ofList (arg.takeWhile (· ≠ '='))
      unless isName name.toList do Action.fail (name.toList ++ ": bad variable name".toList)
      Action.keepLocal name
      match arg.drop name.length with
      | _ :: value => Action.setVariable name value
      | [] => pure ()
    return 0

/-- Takes variables or functions away. -/
def unset : Builtin := fun args => do
  let (options, args) ← options "fv" args
  let functions := (options.getLast?.map (·.1)) = some 'f'
  args.forM fun arg => do
    let name := String.ofList arg
    if functions then
      Action.update fun s => { s with functions := s.functions.filter fun e => e.1 ≠ name }
    else
      unless isName arg do Action.fail (arg ++ ": bad variable name".toList)
      Action.unsetVariable name
  return 0

/-! ## Aliases -/

/-- Where the list of aliases has a name: they are listed by a remainder of the codes of their
characters, and those with the same one in the order in which they were made. -/
def aliasPlace (name : String) : Nat :=
  let codes := name.toList.map Char.toNat
  (16 * codes.headD 0 + Octets.total codes) % 39

/-- An alias as it is shown. -/
def shownAlias (name : String) (text : Octets) : Octets :=
  name.toList ++ '=' :: requoted text ++ ['\n']

/-- Shows or makes aliases. -/
def alias_ : Builtin := fun args => do
  if args.isEmpty then
    let all := (← Action.session).aliases.mergeSort fun a b => aliasPlace a.1 ≤ aliasPlace b.1
    put (all.flatMap fun (name, text) => shownAlias name text)
  else
    args.foldlM (fun code arg => do
      let start := arg.take 1 ++ (arg.drop 1).takeWhile (· ≠ '=')
      let name := String.ofList start
      match arg.drop start.length with
      | _ :: text =>
        Action.update fun s =>
          let known := s.aliases.any fun e => e.1 = name
          { s with aliases :=
            if known then s.aliases.map fun e => if e.1 = name then (name, text) else e
            else s.aliases ++ [(name, text)] }
        return code
      | [] =>
        match (← Action.session).aliases.lookup name with
        | some text =>
          let _ ← put (shownAlias name text)
          return code
        | none =>
          let _ ← Action.write 2 ("alias: ".toList ++ arg ++ " not found\n".toList)
          return 1) 0

/-- Takes aliases away. -/
def unalias : Builtin := fun args => do
  let (all, args) ← options "a" args
  if ! all.isEmpty then
    Action.update fun s => { s with aliases := [] }
    return 0
  else
    args.foldlM (fun code arg => do
      let name := String.ofList arg
      if (← Action.session).aliases.any fun e => e.1 = name then
        Action.update fun s => { s with aliases := s.aliases.filter fun e => e.1 ≠ name }
        return code
      else
        let _ ← Action.write 2 ("unalias: ".toList ++ arg ++ " not found\n".toList)
        return 1) 0

/-! ## Options and arguments -/

/-- Turns an option on or off. -/
def setOption (c : Char) (on : Bool) : Action Unit := do
  if c.isAlpha && Options.names.any fun e => e.2 == c then
    if c == 'm' && on then
      Action.warn "can't access tty; job control turned off".toList
    else Action.update fun s => { s with options := s.options.set c on }
  else Action.fail ("Illegal option -".toList ++ [c])

/-- Turns an option with a long name on or off. -/
def setNamedOption (name : Octets) (on : Bool) : Action Unit :=
  match Options.names.lookup (String.ofList name) with
  | some c =>
    if c.isAlpha then setOption c on
    else Action.update fun s => { s with options := s.options.set c on }
  | none => Action.fail ("Illegal option -o ".toList ++ name)

/-- Shows which options are on: in a table, or as commands that turn them on and off. -/
def showOptions (asCommands : Bool) : Action Unit := do
  let o := (← Action.session).options
  let lines := Options.names.map fun (name, c) =>
    let on := o.letters.contains c
    if asCommands then (if on then "set -o " else "set +o ").toList ++ name.toList
    else
      name.toList ++ List.replicate (16 - name.length) ' ' ++ (if on then "on" else "off").toList
  let head := if asCommands then [] else ["Current option settings".toList]
  let _ ← put (Octets.unlines (head ++ lines))

/-- What the options at the start of a list of arguments leave: the other arguments, whether a
double dash ended the options, and whether a command text is among the arguments (`-c`). -/
structure OptionsRead where
  rest : List Octets
  ended : Bool
  command : Bool
  /-- Commands come from the standard input (`-s`). -/
  fromInput : Bool

/-- Turns on and off what the letters of an argument say. The flag of the result says whether an
`o` takes the next argument as a name. -/
def setLetters (on starting : Bool) (next : Option Octets) :
    Octets → OptionsRead × Bool → Action (OptionsRead × Bool)
  | [], r => return r
  | c :: more, (r, used) => do
    if c == 'c' && starting then
      setLetters on starting next more ({ r with command := true }, used)
    else if c == 's' && starting then
      setLetters on starting next more ({ r with fromInput := true }, used)
    else if c == 'l' && starting then setLetters on starting next more (r, used)
    else if c == 'o' then
      match next with
      | some name =>
        setNamedOption name on
        setLetters on starting none more (r, true)
      | none =>
        showOptions (! on)
        setLetters on starting next more (r, used)
    else
      setOption c on
      setLetters on starting next more (r, used)

/-- Reads the options in front of arguments; `skip` says that the first one was used as a name. -/
def setOptions (starting : Bool) : (skip : Bool) → OptionsRead → List Octets → Action OptionsRead
  | _, r, [] => return { r with rest := [] }
  | true, r, _ :: rest => setOptions starting false r rest
  | false, r, arg :: rest => do
    match arg with
    | ['-'] => return { r with rest, ended := true }
    | ['-', '-'] => return { r with rest, ended := true }
    | '-' :: letters =>
      let (r, used) ← setLetters true starting rest.head? letters (r, false)
      setOptions starting used r rest
    | '+' :: letters =>
      let (r, used) ← setLetters false starting rest.head? letters (r, false)
      setOptions starting used r rest
    | _ => return { r with rest := arg :: rest }

/-- Sets options and arguments. -/
def setArguments : Builtin := fun args => do
  if args.isEmpty then showVariables "" fun v => v.value.isSome
  else
    let r ← setOptions false false ⟨[], false, false, false⟩ args
    if ! r.rest.isEmpty || args.getLast? = some "--".toList then
      Action.update fun s => { s with arguments := r.rest, optionPlace := 0 }
    return 0

/-- Drops arguments. -/
def shift : Builtin := fun args => do
  let n ← match args.head? with
    | none => pure 1
    | some s => Action.natural s
  if (← Action.session).arguments.length < n then Action.fail "can't shift that many".toList
  else
    Action.update fun s => { s with arguments := s.arguments.drop n, optionPlace := 0 }
    return 0

/-- Looks for the next option among arguments. -/
def getopts : Builtin := fun args => do
  match args with
  | letters :: name :: given =>
    let s ← Action.session
    let args := if given.isEmpty then s.arguments else given
    let index := max 1 (((← Action.valueOf "OPTIND").bind Octets.nat?).getD 1)
    let silent := letters.head? = some ':'
    let setTo (name : String) (value : Octets) : Action Unit := Action.setVariable name value
    let finish (index place : Nat) : Action Unit := do
      setTo "OPTIND" (Octets.ofNat index)
      Action.update fun s => { s with optionPlace := place }
    let arg := args[index - 1]?.getD []
    let place := if s.optionPlace = 0 then 1 else s.optionPlace
    let isOption := s.optionPlace > 0 || (arg.head? = some '-' && arg.length > 1)
    if ! isOption || args.length < index then
      setTo (String.ofList name) ['?']
      finish index 0
      return 1
    else if arg = "--".toList && s.optionPlace = 0 then
      setTo (String.ofList name) ['?']
      finish (index + 1) 0
      return 1
    else
      let c := arg[place]?.getD '?'
      let rest := arg.drop (place + 1)
      let known := c ≠ ':' && letters.contains c
      let valued := known &&
        (letters.drop ((letters.idxOf c) + 1)).head? = some ':'
      if ! known then
        if silent then setTo "OPTARG" [c]
        else
          let _ ← Action.write 2 ("Illegal option -".toList ++ [c, '\n'])
          Action.putVariable "OPTARG" none
        setTo (String.ofList name) ['?']
        if rest.isEmpty then finish (index + 1) 0 else finish index (place + 1)
      else if ! valued then
        setTo "OPTARG" []
        setTo (String.ofList name) [c]
        if rest.isEmpty then finish (index + 1) 0 else finish index (place + 1)
      else if ! rest.isEmpty then
        setTo "OPTARG" rest
        setTo (String.ofList name) [c]
        finish (index + 1) 0
      else
        match args[index]? with
        | some value =>
          setTo "OPTARG" value
          setTo (String.ofList name) [c]
          finish (index + 2) 0
        | none =>
          if silent then
            setTo "OPTARG" [c]
            setTo (String.ofList name) [':']
          else
            let _ ← Action.write 2 ("No arg for -".toList ++ [c] ++ " option\n".toList)
            Action.putVariable "OPTARG" none
            setTo (String.ofList name) ['?']
          finish (index + 1) 0
      return 0
  | _ => Action.fail "Usage: getopts optstring var [arg]".toList

/-! ## Reading -/

/-- Takes characters up to the end of a line: what was read, how many were taken, and whether the
line had an end. Where there was a backslash a new region begins. -/
def takeLine (raw : Bool) : Octets → List Atom × Nat × Bool
  | [] => ([], 0, false)
  | '\n' :: _ => ([], 1, true)
  | '\\' :: c :: rest =>
    if raw then
      let (line, n, ended) := takeLine raw (c :: rest)
      (.char '\\' .loose :: line, n + 1, ended)
    else
      let (line, n, ended) := takeLine raw rest
      let line := .region false :: line
      (if c == '\n' then line else .char c .quoted :: line, n + 2, ended)
  | c :: rest =>
    let (line, n, ended) := takeLine raw rest
    (if (c == '\\' && ! raw) || c == Char.ofNat 0 then line else .char c .loose :: line,
      n + 1, ended)

/-- Reads a line from a channel: its characters, and whether it had an end. The first argument bounds
how often it has to wait, and `before` is what was read already. -/
def receiveLine (raw : Bool) (channel : Nat) :
    Nat → Octets → Kernel (List Atom × Bool)
  | 0, before => return ((takeLine raw before).1, false)
  | n + 1, before => do
    match ← Kernel.receive channel Kernel.blockSize with
    | .error _ => return ((takeLine raw before).1, false)
    | .ok [] => return ((takeLine raw before).1, false)
    | .ok more =>
      let text := before ++ more
      let (line, count, ended) := takeLine raw text
      if ended then
        modify fun w => w.unread channel (text.drop count)
        return (line, true)
      else receiveLine raw channel n text

/-- Reads a line into variables. -/
def read : Builtin := fun args => do
  let (options, names) ← options "p:r" args
  let raw := options.any fun o => o.1 == 'r'
  if names.isEmpty then Action.fail "arg count".toList
  else
    let line ← match ← Action.lift (Kernel.stream? 0) with
      | none => pure ([], false)
      | some n => Action.lift (receiveLine raw n Kernel.patience [])
    let atoms := .region false :: line.1
    let values := (cutFields (some names.length) (← Action.separators) atoms).map fieldText
    for (name, value) in names.zip (values ++ List.replicate names.length []) do
      Action.setVariable (String.ofList name) value
    return if line.2 then 0 else 1

/-! ## Signals -/

/-- The names of the signals, from 0 on, which stands for the end of the shell. -/
def signalTexts : List String :=
  let known := (List.range 31).map fun n =>
    if n = 15 then "16" else String.ofList (((signalNames[n]?).getD "").toList.drop 3)
  let low := (List.range 15).map fun n => "RTMIN+" ++ toString (n + 1)
  let high := (List.range 14).map fun n => "RTMAX-" ++ toString (14 - n)
  "EXIT" :: known ++ ["32", "33", "RTMIN"] ++ low ++ high ++ ["RTMAX"]

/-- The number of a signal by its number or its name without `SIG`, the first name that counts being
that of a given signal. -/
def signalNumber? (first : Nat) (s : Octets) : Option Nat :=
  match Octets.nat? s with
  | some n => if n < signalTexts.length then some n else none
  | none =>
    let name := String.ofList (s.map Char.toUpper)
    ((signalTexts.drop first).idxOf? name).map (· + first)

/-- The name of a signal. -/
def signalName (n : Nat) : Octets := ((signalTexts[n]?).getD "").toList

/-- Shows the names of all signals, or that of one by its number or by the exit code that it
causes. -/
def listSignals (arg : Option Octets) : Action Nat := do
  match arg with
  | none => put (Octets.unlines (['0'] :: (signalTexts.drop 1).map String.toList))
  | some s =>
    let n ← Action.natural s
    let n := if 128 < n then n - 128 else n
    if 0 < n && n < signalTexts.length then put (signalName n ++ ['\n'])
    else Action.fail ("invalid signal number or exit status: ".toList ++ s)

/-- Sends a signal to what a text names. No group of processes can be named. -/
def sendTo (signal : Nat) (target : Octets) : Action Bool := do
  let found ← match target with
    | '%' :: _ => do
      let _ ← Jobs.named (some target)
      pure false
    | '-' :: digits => do
      let _ ← Action.natural digits
      pure false
    | _ => do
      let n ← Action.natural target
      Action.lift (Kernel.send n signal)
  unless found do Action.warn "No such process\n".toList
  return found

/-- Sends signals. -/
def kill : Builtin := fun args => do
  let usage : Action Nat := Action.fail
    ("Usage: kill [-s sigspec | -signum | -sigspec] [pid | job]... or\n" ++
      "kill -l [exitstatus]").toList
  let send (signal : Nat) (targets : List Octets) : Action Nat := do
    if targets.isEmpty then usage
    else
      targets.foldlM (fun code target => do
        return if ← sendTo signal target then code else 1) 0
  match args with
  | [] => usage
  | first :: rest =>
    match if first.head? = some '-' then signalNumber? 1 (first.drop 1) else none with
    | some n => send n rest
    | none => do
      let (options, targets) ← options "ls:" args
      let signal ← options.foldlM (fun signal o => do
        if o.1 == 's' then
          match signalNumber? 1 o.2 with
          | some n => return some n
          | none => Action.fail ("invalid signal number or name: ".toList ++ o.2)
        else return signal) none
      if options.any fun o => o.1 == 'l' then
        if signal.isSome then usage else listSignals targets.head?
      else send (signal.getD 15) targets

/-- Says what is to be done on signals. -/
def trap : Builtin := withoutOptions fun args => do
  match args with
  | [] =>
    let all := (← Action.session).traps.mergeSort fun a b => a.1 ≤ b.1
    put (all.flatMap fun (n, action) =>
      "trap -- ".toList ++ requoted action ++ ' ' :: signalName n ++ ['\n'])
  | first :: rest =>
    let isReset := rest.isEmpty || (Octets.nat? first).any (· < signalTexts.length)
    let action := if isReset || first = ['-'] then none else some first
    let signals := if isReset then args else rest
    let code ← signals.foldlM (fun code s => do
      if code = 1 then return code
      else
        match signalNumber? 0 s with
        | none =>
          let _ ← Action.write 2 ("trap: ".toList ++ s ++ ": bad trap\n".toList)
          return 1
        | some n =>
          Action.update fun session =>
            let others := session.traps.filter fun e => e.1 ≠ n
            { session with traps := match action with
              | none => others
              | some action => (n, action) :: others }
          return 0) 0
    Action.listen
    return code

/-! ## Jobs -/

/-- Waits for processes in the background. A signal on which something is to be done ends that. -/
def wait : Builtin := withoutOptions fun args => do
  let interrupted : Action Nat := do
    return 128 + ((← Action.session).caught.head?).getD 0
  if args.isEmpty then
    if ← Jobs.awaitAll then return 0 else interrupted
  else
    let rec go : Nat → List Octets → Action Nat
      | code, [] => return code
      | code, arg :: rest => do
        let number ← match arg with
          | '%' :: _ => do pure (some (← Jobs.named (some arg)))
          | _ => do
            let n ← Action.natural arg
            let s ← Action.session
            pure (s.jobOrder.find? fun k =>
              (((s.jobs[k - 1]?).join).bind (·.parts.getLast?)).any (·.process = n))
        match number with
        | none => go code rest
        | some k =>
          if ← Jobs.await k true then
            Action.update fun s =>
              { s with jobs := s.jobs.modify (k - 1) (·.map ({ · with told := true })) }
            go (((← Jobs.job? k).map Job.code).getD 0) rest
          else interrupted
    go 127 args

/-- Shows jobs. Those that have ended are forgotten then. -/
def jobs : Builtin := fun args => do
  let (options, args) ← options "lp" args
  let letter := options.getLast?.map (·.1)
  Jobs.collect none
  let numbers ←
    if args.isEmpty then do pure (← Action.session).jobOrder
    else args.mapM fun arg => Jobs.named (some arg)
  numbers.forM fun n => do
    match ← Jobs.job? n with
    | none => pure ()
    | some j =>
      if letter = some 'p' then
        let _ ← put ((j.parts.take 1).flatMap fun p => Octets.ofNat p.process ++ ['\n'])
      else
        let _ ← put (Jobs.line (letter = some 'l') n (← Action.session).jobOrder j)
        if j.isDone then Jobs.free n
  return 0

/-- Refuses to move a job between the foreground and the background, which only shells with a
terminal can do. -/
def moveJob : Builtin := withoutOptions fun args => do
  let n ← Jobs.named args.head?
  Action.fail ("job ".toList ++ (args.head?.getD ('%' :: Octets.ofNat n)) ++
    " not created under job control".toList)

/-- Shows the limits of what processes may use. -/
def ulimit : Builtin := fun args => do
  let (options, args) ← options "HSatfdscmlpnvwr" args
  let kind := ((options.map (·.1)).filter fun c => c ≠ 'H' && c ≠ 'S').getLast?.getD 'f'
  if ! args.isEmpty then return 0
  else
    let limit := match kind with
      | 's' => "8192"
      | 'c' => "0"
      | 'l' => "8192"
      | 'n' => "1048576"
      | 'r' => "0"
      | _ => "unlimited"
    put (limit.toList ++ ['\n'])

/-- Shows how long the shell and its children took, which is hardly any time. -/
def times : Builtin := fun _ =>
  let line := "0m0.000000s 0m0.000000s\n".toList
  put (line ++ line)

/-! ## Finding commands -/

/-- The path of a program, or why there is none. The shell remembers what it found, unless it looks
in a search path that is given. -/
def findCommand (searchPath : Option Octets) (name : Octets) : Action (Except IoError Octets) := do
  let s ← Action.session
  if name.contains '/' then return .ok name
  else
    match if searchPath.isSome then none else s.found.lookup (String.ofList name) with
    | some path => return .ok path
    | none =>
      let usual ← Action.valueOf "PATH"
      let places := (searchPath.orElse fun _ => usual).getD []
      let w ← Action.world
      let r := if name.isEmpty then .error .permissionDenied else w.search s.directory places name
      match r with
      | .ok path =>
        if searchPath.isNone then
          Action.update fun s => { s with found := s.found ++ [(String.ofList name, path)] }
        return .ok path
      | .error e => return .error e

/-- Why a program was not found, in the words of the shell. -/
def searchReason (e : IoError) : Octets :=
  (if e = .notFound ∨ e = .notADirectory then "not found" else reason e).toList

/-- Shows the programs that were found, or looks for some. -/
def hash : Builtin := fun args => do
  let (options, args) ← options "rv" args
  if options.any fun o => o.1 == 'r' then
    Action.update fun s => { s with found := [] }
    return 0
  else if args.isEmpty then
    put (Octets.unlines ((← Action.session).found.map (·.2)))
  else
    args.foldlM (fun code name => do
      Action.update fun s =>
        { s with found := s.found.filter fun e => e.1 ≠ String.ofList name }
      match ← findCommand none name with
      | .ok _ => return code
      | .error e =>
        Action.warn (name ++ ": ".toList ++ searchReason e)
        return 1) 0

/-- The commands of the shell by name, with those that end it when they fail. -/
def table : List (String × Bool × Builtin) :=
  [(":", true, fun _ => return 0), ("break", true, leaveLoops),
    ("continue", true, nextRound), ("exit", true, exit), ("export", true, exportVariables),
    ("readonly", true, readonly), ("return", true, leaveScript), ("set", true, setArguments),
    ("shift", true, shift), ("times", true, times), ("trap", true, trap),
    ("unset", true, unset), ("local", true, localVariables), ("[", false, test true),
    ("test", false, test false), ("echo", false, echo), ("printf", false, printf),
    ("true", false, fun _ => return 0), ("false", false, fun _ => return 1), ("cd", false, cd),
    ("chdir", false, cd), ("pwd", false, pwd), ("read", false, read), ("kill", false, kill),
    ("wait", false, wait), ("getopts", false, getopts), ("umask", false, umask),
    ("ulimit", false, ulimit), ("hash", false, hash), ("jobs", false, jobs), ("fg", false, moveJob),
    ("bg", false, moveJob), ("alias", false, alias_), ("unalias", false, unalias)]

end Builtin
end Bundler.Shell
