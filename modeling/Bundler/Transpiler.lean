import Bundler.Cause
import Bundler.Failure
import Bundler.Text.Quoted
import Bundler.Text.Search
/-!
# Transpilers

A transpiler makes the compiled file from a source file: by copying it, by running a program, or by
a function. A `Transpilers` table chooses one by the extension of the source. What a program does
when it is started is a parameter, `Programs`.
-/

namespace Bundler

/-! ## Programs -/

/-- How a program ended. -/
inductive ExitStatus where
  | code (n : Nat)
  | signal (n : Nat)
  deriving DecidableEq, Repr

/-- Whether the program reports success. -/
def ExitStatus.success (s : ExitStatus) : Bool := s = .code 0

/-- The names of the signals, from the first on. The others have numbers only. -/
def signalNames : List String :=
  ["SIGHUP", "SIGINT", "SIGQUIT", "SIGILL", "SIGTRAP", "SIGABRT", "SIGBUS", "SIGFPE", "SIGKILL",
    "SIGUSR1", "SIGSEGV", "SIGUSR2", "SIGPIPE", "SIGALRM", "SIGTERM", "SIGSTKFLT", "SIGCHLD",
    "SIGCONT", "SIGSTOP", "SIGTSTP", "SIGTTIN", "SIGTTOU", "SIGURG", "SIGXCPU", "SIGXFSZ",
    "SIGVTALRM", "SIGPROF", "SIGWINCH", "SIGIO", "SIGPWR", "SIGSYS"]

/-- The text of an exit status. -/
def ExitStatus.text : ExitStatus → String
  | .code n => "exit status: " ++ toString n
  | .signal n => "signal: " ++ toString n ++
      match signalNames[n - 1]? with
      | some name => " (" ++ name ++ ")"
      | none => ""

/-- A program to start, with its arguments, in a directory. -/
structure Invocation where
  program : String
  args : List String
  directory : Path
  deriving DecidableEq, Repr

/-- What starting programs does: it fails where a program cannot be started; else the program
changes files and ends. -/
abbrev Programs := Invocation → FileTree → Except IoError (FileTree × ExitStatus)

/-! ## Transpilers -/

/-- How a transpiling function ended. -/
inductive Ending where
  | done
  | failed (message : String)
  | panicked (p : Panic)
  deriving DecidableEq, Repr

/-- A way to make a compiled file. -/
inductive Transpiler where
  | copy
  /-- A program; `{src}` and `{dst}` in its arguments stand for the two files. -/
  | command (program : String) (args : List String)
  /-- A function of the source and the destination. -/
  | custom (run : Path → Path → FileTree → FileTree × Ending)

/-- Why a transpiler failed. -/
inductive TranspileError where
  | copy (src dst : Path) (error : IoError)
  | spawn (program : String) (error : IoError)
  | status (program : String) (src : Path) (ending : ExitStatus)
  | custom (src : Path) (message : String)
  deriving DecidableEq, Repr

/-- The text of the error, its cause worded by `say`. -/
def TranspileError.message (say : Cause → String) : TranspileError → String
  | .copy src dst e => "Couldn't copy " ++ src.text ++ " to " ++ dst.text ++ ":\n" ++ say (.io e)
  | .spawn program e => "Couldn't run `" ++ program ++ "`:\n" ++ say (.io e)
  | .status program src ending =>
    "`" ++ program ++ "` failed on " ++ src.text ++ " (" ++ ending.text ++ ")"
  | .custom src message => "Transpiling " ++ src.text ++ " failed:\n" ++ message

namespace Transpiler

/-- An argument with the source and then the destination put into it. -/
def fillIn (src dst : Path) (arg : String) : String :=
  Text.replaceAll "\x7bdst\x7d" dst.text (Text.replaceAll "\x7bsrc\x7d" src.text arg)

/-- Makes `dst` from `src`. A failure may leave anything behind. -/
def run (programs : Programs) (directory src dst : Path) (t : FileTree) :
    Transpiler → FileTree × Except (Failure TranspileError) Unit
  | .copy =>
    match t.copy src dst with
    | .error e => (t, .error (.error (.copy src dst e)))
    | .ok t' => (t', .ok ())
  | .command program args =>
    match programs ⟨program, args.map (fillIn src dst), directory⟩ t with
    | .error e => (t, .error (.error (.spawn program e)))
    | .ok (t', status) =>
      if status.success then (t', .ok ()) else (t', .error (.error (.status program src status)))
  | .custom f =>
    match f src dst t with
    | (t', .done) => (t', .ok ())
    | (t', .failed message) => (t', .error (.error (.custom src message)))
    | (t', .panicked p) => (t', .error (.panic p))

/-- A transpiler in diagnostics. -/
def shown : Transpiler → String
  | .copy => "Copy"
  | .command program args =>
    "Command \x7b program: " ++ Text.quoted program ++ ", args: " ++
      Text.shownList (args.map Text.quoted) ++ " \x7d"
  | .custom _ => "Custom(..)"

end Transpiler

/-! ## Choosing a transpiler -/

/-- Transpilers by extension, and one for all other files. -/
structure Transpilers where
  table : List (String × Transpiler)
  fallback : Transpiler

namespace Transpilers

/-- Every file is copied. -/
def default : Transpilers := ⟨[], .copy⟩

/-- An extension as a key: without leading dots, in lower case. -/
def key (ext : String) : String := Text.toAsciiLower (Text.trimLeading '.' ext)

/-- Uses a transpiler for an extension, in the place of any before. -/
def register (ts : Transpilers) (ext : String) (transpiler : Transpiler) : Transpilers :=
  { ts with table := (key ext, transpiler) :: ts.table.filter fun entry => entry.1 ≠ key ext }

/-- Uses a transpiler for all files without one of their own. -/
def setFallback (ts : Transpilers) (transpiler : Transpiler) : Transpilers :=
  { ts with fallback := transpiler }

/-- The transpiler of a file. -/
def get (ts : Transpilers) (path : Path) : Transpiler :=
  ((path.extension?.bind fun ext => ts.table.lookup (key ext))).getD ts.fallback

/-- The table in diagnostics. -/
def shown (ts : Transpilers) : String :=
  "Transpilers \x7b table: \x7b" ++
    ", ".intercalate (ts.table.reverse.map fun (ext, t) => Text.quoted ext ++ ": " ++ t.shown) ++
    "\x7d, fallback: " ++ ts.fallback.shown ++ " \x7d"

end Transpilers
end Bundler
