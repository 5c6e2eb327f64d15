import Bundler.Decimal.Spelled
import Bundler.Shell.Condition
import Bundler.Shell.Format
import Bundler.Shell.Tool.Inputs
import Bundler.Shell.Tool.Names
/-!
# Tools for texts

Tools that work on their arguments alone: they write texts, answer conditions, take paths apart, or
wait.
-/

namespace Bundler.Shell

/-- Only ends, with a given code. -/
def Tool.answer (code : Nat) : Tool := fun _ => return code

/-! ## Waiting -/

/-- The time that an argument like `1.5m` spells, in millionths of a second. -/
def interval? (s : Octets) : Option Nat := do
  let n ← Decimal.Spelled.read? s
  let unit ← match n.rest with
    | [] => some 1
    | ['s'] => some 1
    | ['m'] => some 60
    | ['h'] => some 3600
    | ['d'] => some 86400
    | _ => none
  match n.value with
  | .finite minus x =>
    if minus && x.mantissa ≠ 0 then none
    else
      let e := x.exponent
      some (x.mantissa * Nat.pow 2 e.toNat * unit * 1000000 / Nat.pow 2 (- e).toNat)
  | .infinite false => some (Nat.pow 10 18)
  | _ => none

/-- Waits for the sum of some times. -/
def Tool.sleep : Tool := fun call =>
  withOptions (optionTable "" []) call fun a => do
    if a.operands.isEmpty then call.refuse "missing operand".toList
    else
      match a.operands.find? fun s => (interval? s).isNone with
      | some s => call.refuse ("invalid time interval ".toList ++ quotedName s)
      | none =>
        Work.lift (Kernel.sleep (Octets.total (a.operands.filterMap interval?)))
        return 0

/-! ## Writing -/

/-- Writes arguments. -/
def Tool.echo : Tool := fun call => do
  let isOption (s : Octets) : Bool :=
    s.head? = some '-' && 1 < s.length && (s.drop 1).all ("neE".toList.contains ·)
  let options := (call.args.takeWhile isOption).flatten
  let text := Octets.joined [' '] (call.args.dropWhile isOption)
  let ending : Octets := if options.contains 'n' then [] else ['\n']
  let escapes := (options.filter fun c => c == 'e' || c == 'E').getLast? = some 'e'
  if escapes then
    let (text, ends) := unescape (text.length + 1) text
    call.put (if ends then text else text ++ ending)
  else call.put (text ++ ending)
  return 0

/-- Writes formatted arguments. -/
def Tool.printf : Tool := fun call => do
  let args := if call.args.head? = some "--".toList then call.args.drop 1 else call.args
  match args with
  | [] => call.refuse "missing operand".toList
  | format :: args =>
    let p := printFormat format args
    call.put p.written.reverse
    p.warnings.forM fun warning => call.complain (quotedName warning)
    match p.mistake with
    | none => return if p.warnings.isEmpty then 0 else 1
    | some mistake => call.gives 1 mistake

/-- Writes a line again and again. -/
def Tool.yes : Tool := fun call =>
  withOptions (optionTable "" []) call fun a => do
    let line := (if a.operands.isEmpty then ['y'] else Octets.joined [' '] a.operands) ++ ['\n']
    let block := (List.replicate (8192 / line.length + 1) line).flatten
    let rec go : Nat → Work Nat
      | 0 => return 0
      | n + 1 => do
        call.put block
        if (← get).isSome then return 1 else go n
    go Kernel.patience

/-- Shows variables. -/
def Tool.printenv : Tool := fun call =>
  withOptionsOr 2 false (optionTable "0" ["0=null"]) call fun a => do
    let ending : Octets := if a.has "0" then [Char.ofNat 0] else ['\n']
    if a.operands.isEmpty then
      call.put (call.environment.flatMap fun (name, value) =>
        name.toList ++ '=' :: value ++ ending)
      return 0
    else
      forAll a.operands fun name => do
        match call.environment.lookup (String.ofList name) with
        | none => return false
        | some value =>
          call.put (value ++ ending)
          return true

/-! ## Conditions -/

/-- Answers a condition; in brackets, the last argument is the closing one. -/
def Tool.test (brackets : Bool) : Tool := fun call => do
  if brackets && call.args.getLast? ≠ some [']'] then call.gives 2 ("missing ".toList ++ quotedName [']'])
  else
    let words := if brackets then call.args.dropLast else call.args
    let around := ⟨← Work.world, ← Work.streams, call.directory⟩
    match condition around words with
    | .ok answer => return if answer then 0 else 1
    | .error message => call.gives 2 message

/-! ## Paths -/

/-- Shows the working directory. -/
def Tool.pwd : Tool := fun call =>
  withOptions (optionTable "LP" ["L=logical", "P=physical"]) call fun _ => do
    call.put (Octets.ofText call.directory.text ++ ['\n'])
    return 0

/-- What ends a line of output: a zero byte where that is asked for. -/
def Arguments.lineEnd (a : Arguments) : Octets := [a.recordEnd]

/-- A name without an ending, unless it is nothing else. -/
def withoutEnding (ending name : Octets) : Octets :=
  if ending.reverse.isPrefixOf name.reverse && ending ≠ name then
    name.take (name.length - ending.length)
  else name

/-- Shows last names of paths. -/
def Tool.basename : Tool := fun call =>
  withOptionsOr 1 true (optionTable "as:z" ["a=multiple", "s=suffix:", "z=zero"]) call fun a => do
    let show_ (ending s : Octets) : Work Unit :=
      call.put (withoutEnding ending (nameOf s) ++ a.lineEnd)
    match a.operands with
    | [] => call.refuse "missing operand".toList
    | s :: more =>
      if a.has "a" || a.has "s" then
        (s :: more).forM (show_ ((a.value? "s").getD []))
        return 0
      else
        match more with
        | [] =>
          show_ [] s
          return 0
        | [ending] =>
          show_ ending s
          return 0
        | _ :: extra :: _ => call.refuse ("extra operand ".toList ++ quotedName extra)

/-- Shows the directories that paths lie in. -/
def Tool.dirname : Tool := fun call =>
  withOptions (optionTable "z" ["z=zero"]) call fun a => do
    if a.operands.isEmpty then call.refuse "missing operand".toList
    else
      a.operands.forM fun s => call.put (directoryOf s ++ a.lineEnd)
      return 0

/-- The pieces of a path on the way from one location to another. -/
def wayTo (start goal : Location) : Octets :=
  let common := ((start.zip goal).takeWhile fun e => e.1 = e.2).length
  let pieces := List.replicate (start.length - common) "..".toList ++
    (goal.drop common).map Octets.ofText
  if pieces.isEmpty then ['.'] else Octets.joined ['/'] pieces

/-- The location that a path would have: all of it has to be there, or all but the last name, or
nothing. -/
def wouldBe (t : FileTree) (a : Arguments) (p : Path) : Except IoError Location :=
  match t.locate p with
  | .ok l => .ok l
  | .error e =>
    let spelled : Location := (p.normalize.text.splitOn "/").filter (! ·.isEmpty)
    if a.has "e" then .error e
    else if a.has "m" then .ok spelled
    else
      match t.aim p with
      | .ok (.name parent name _) =>
        if (t.node? (parent ++ [name])).isNone then .ok (parent ++ [name]) else .error e
      | _ => .error e

/-- Shows paths in the one spelling that has neither dots nor repeated slashes. -/
def Tool.realpath : Tool := fun call =>
  let table := optionTable "eELmPqsz"
    ["e=canonicalize-existing", "m=canonicalize-missing", "L=logical", "P=physical", "q=quiet",
      "relative-to:", "relative-base:", "s=strip", "s=no-symlinks", "z=zero"]
  withOptions table call fun a => do
    if a.operands.isEmpty then call.refuse "missing operand".toList
    else
      let t ← Work.tree
      let rooted (l : Location) : Octets :=
        '/' :: Octets.joined ['/'] (l.map Octets.ofText)
      let locationOf (name : String) : Option Location :=
        (a.value? name).bind fun s => (wouldBe t a (call.path s)).toOption
      let base := locationOf "relative-base"
      let origin := (locationOf "relative-to").orElse fun _ => base
      forAll a.operands fun s => do
        match wouldBe t a (call.path s) with
        | .ok l =>
          let shown := match origin with
            | none => rooted l
            | some o => if base.all (·.isPrefixOf l) then wayTo o l else rooted l
          call.put (shown ++ a.lineEnd)
          return true
        | .error e =>
          if a.has "q" then return false
          else call.fails (s ++ ": ".toList ++ (reason e).toList)

/-! ## Running programs in another environment -/

/-- What `env` is to do. -/
structure EnvironmentChange where
  environment : List (String × Octets)
  /-- A program with its arguments; without one, the variables are shown. -/
  program : Option (Octets × List Octets)
  ending : Octets
  directory : Option Octets

/-- The options of `env`. -/
def environmentOptions : OptionTable :=
  optionTable "iu:0C:S:v"
    ["i=ignore-environment", "u=unset:", "0=null", "C=chdir:", "S=split-string:", "v=debug"]

/-- Reads what `env` is to do. -/
def EnvironmentChange.read (environment : List (String × Octets)) (args : List Octets) :
    Except Octets EnvironmentChange := do
  let a ← readArguments environmentOptions true false args
  let (clear, words) := match a.operands with
    | ['-'] :: rest => (true, rest)
    | words => (a.has "i", words)
  let kept := if clear then [] else environment
  let removed := (a.options.filter fun o => o.1 = "u").map (·.2)
  match removed.find? fun s => s.isEmpty || s.contains '=' with
  | some s => throw ("cannot unset ".toList ++ quotedName s ++ ": Invalid argument".toList)
  | none =>
    let kept := kept.filter fun e => ! removed.contains e.1.toList
    let split := ((a.value? "S").map fun s =>
      (Octets.pieces isSpace s).filter (! ·.isEmpty)).getD []
    let words := split ++ words
    let isSetting (s : Octets) : Bool := s.contains '='
    let environment := (words.takeWhile isSetting).foldl (fun kept s =>
      let name := String.ofList (s.takeWhile (· ≠ '='))
      let value := s.drop (name.length + 1)
      if kept.any fun e => e.1 = name then
        kept.map fun e => if e.1 = name then (name, value) else e
      else kept ++ [(name, value)]) kept
    let program := match words.dropWhile isSetting with
      | [] => none
      | name :: args => some (name, args)
    return ⟨environment, program, if a.has "0" then [Char.ofNat 0] else ['\n'], a.value? "C"⟩

end Bundler.Shell
