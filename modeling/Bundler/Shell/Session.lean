import Bundler.Shell.Command
import Bundler.Transpiler
/-!
# The state of a shell

A `Session` is one shell between two commands: its parameters, variables, functions, options and
jobs. It can be copied, and the copy goes its own way.
-/

namespace Bundler.Shell

/-- A variable. One without a value is only marked. -/
structure Variable where
  value : Option Octets
  exported : Bool
  readonly : Bool
  deriving DecidableEq, Repr

/-- Switches of a shell: the letters of those that are on. -/
structure Options where
  letters : List Char
  deriving DecidableEq, Repr

namespace Options

/-- No switch is on. -/
def none : Options := ⟨[]⟩

/-- The switches by name, with their letters. The last two have no letters to be shown. -/
def names : List (String × Char) :=
  [("errexit", 'e'), ("noglob", 'f'), ("ignoreeof", 'I'), ("interactive", 'i'), ("monitor", 'm'),
    ("noexec", 'n'), ("stdin", 's'), ("xtrace", 'x'), ("verbose", 'v'), ("vi", 'V'),
    ("emacs", 'E'), ("noclobber", 'C'), ("allexport", 'a'), ("notify", 'b'), ("nounset", 'u'),
    ("privileged", 'p'), ("nolog", '\x01'), ("debug", '\x02')]

/-- Turns a switch on or off. Of the two ways to edit lines, only one is on. -/
def set (o : Options) (c : Char) (on : Bool) : Options :=
  let others := o.letters.filter fun d => d ≠ c && ! (on && (c, d) ∈ [('V', 'E'), ('E', 'V')])
  ⟨if on then c :: others else others⟩

/-- A command that fails ends the shell. -/
def endOnFailure (o : Options) : Bool := o.letters.contains 'e'

/-- Names of files are not looked up for patterns. -/
def noPatterns (o : Options) : Bool := o.letters.contains 'f'

/-- Commands are read and not run. -/
def onlyRead (o : Options) : Bool := o.letters.contains 'n'

/-- Commands are shown before they run. -/
def trace (o : Options) : Bool := o.letters.contains 'x'

/-- Lines of a script file are shown when they are read. -/
def echoInput (o : Options) : Bool := o.letters.contains 'v'

/-- `>` does not empty files. -/
def keepFiles (o : Options) : Bool := o.letters.contains 'C'

/-- Variables that are set are exported. -/
def exportAll (o : Options) : Bool := o.letters.contains 'a'

/-- A parameter that is not set is an error. -/
def onlySet (o : Options) : Bool := o.letters.contains 'u'

/-- The letters of the switches that are on, in the order in which they are shown. -/
def shown (o : Options) : Octets :=
  ((names.map (·.2)).filter fun c => '\x02' < c && o.letters.contains c).reverse

end Options

/-- A part of a job: a process, and how it ended if that is known. -/
structure JobPart where
  process : Nat
  ending : Option ExitStatus
  deriving DecidableEq, Repr

/-- Processes that were started together. -/
structure Job where
  parts : List JobPart
  /-- Its end was told, so that its number can be used again. -/
  told : Bool
  deriving DecidableEq, Repr

/-- Whether all processes of a job have ended. -/
def Job.isDone (j : Job) : Bool := j.parts.all (·.ending.isSome)

/-- Where a command stands. -/
structure Place where
  /-- Its failure is looked at, so that it ends no shell. -/
  tested : Bool
  /-- The shell ends with it. -/
  last : Bool
  deriving DecidableEq, Repr

/-- A shell between two commands. -/
structure Session where
  name : Octets
  arguments : List Octets
  bindings : List (String × Variable)
  functions : List (String × Command)
  aliases : List (String × Octets)
  options : Options
  directory : Path
  /-- The permission bits that new files do not get. -/
  mask : Nat
  /-- The exit code of the last command. -/
  code : Nat
  /-- The exit code of the last command inside a word of the command that is being run. -/
  innerCode : Nat
  /-- The process that the shell began as. -/
  number : Nat
  /-- The process that the shell is. -/
  process : Nat
  /-- What is done on signals; on 0, at the end. Nothing is done where the text is empty. -/
  traps : List (Nat × Octets)
  /-- Signals that were ignored from the start and stay so. -/
  deaf : List Nat
  /-- Signals for which something is still to be done. -/
  caught : List Nat
  /-- The exit code from before what is being done on a signal. -/
  codeBefore : Option Nat
  line : Nat
  /-- The command that messages name. -/
  command : Option Octets
  documents : Array Word
  /-- How many loops the command is in. -/
  loops : Nat
  /-- The values that variables get back at the end of functions, the innermost function first. -/
  locals : List (List (String × Option Variable))
  /-- The place in an argument where `getopts` goes on. -/
  optionPlace : Nat
  /-- Jobs by number, from 1 on. A number without one is free. -/
  jobs : List (Option Job)
  /-- The numbers of the jobs, the latest first. -/
  jobOrder : List Nat
  /-- The last process that was started in the background. -/
  background : Option Nat
  /-- Where programs were found. -/
  found : List (String × Octets)

/-- The exit code by which a shell sees how a program ended. -/
def seenCode : ExitStatus → Nat
  | .code n => n
  | .signal n => 128 + n

/-- How a program ends whose shell ends with a code. -/
def exitStatus (code : Nat) : ExitStatus := .code (code % 256)

/-- The variables that programs get. -/
def Session.environment (s : Session) : List (String × Octets) :=
  s.bindings.filterMap fun (name, v) =>
    if v.exported then v.value.map fun value => (name, value) else none

end Bundler.Shell
