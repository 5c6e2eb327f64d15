import Bundler.Bundle.Chunk
import Bundler.Text.Search
/-!
# Command line arguments

Options stand anywhere; a long option takes its value from behind an equals sign or from the next
argument, a short one also from the letters behind it. Arguments are read from left to right: the
first mistake, or the first request for help or the version, decides.
-/

namespace Bundler.CommandLine

/-- What the program is asked to do. -/
inductive Mode where
  | build
  | watch
  deriving DecidableEq, Repr

/-- The options that were given. -/
structure Options where
  mode : Option Mode
  root : Option Path
  config : Option Path
  out : Option Path
  dist : Option Path
  sources : List Path
  entrypoints : List String
  jobs : Option Nat
  chunks : Option Chunker
  deriving DecidableEq, Repr, Inhabited

/-- No option is given. -/
def Options.none : Options := ⟨.none, .none, .none, .none, .none, [], [], .none, .none⟩

/-- What the arguments ask for. -/
inductive Request where
  | run (options : Options)
  | help
  | version
  | wrongUsage
  deriving DecidableEq, Repr

/-- An option that takes a value. -/
inductive Setting where
  | root
  | config
  | out
  | dist
  | source
  | entry
  | jobs
  | chunks
  deriving DecidableEq, Repr

/-- What an option name stands for. -/
inductive Name where
  | setting (s : Setting)
  | help
  | version
  deriving DecidableEq, Repr

/-- The meaning of a long name. -/
def longName? : String → Option Name
  | "root" => some (.setting .root)
  | "config" => some (.setting .config)
  | "out" => some (.setting .out)
  | "dist" => some (.setting .dist)
  | "src" => some (.setting .source)
  | "entry" => some (.setting .entry)
  | "jobs" => some (.setting .jobs)
  | "chunks" => some (.setting .chunks)
  | "help" => some .help
  | "version" => some .version
  | _ => none

/-- The meaning of a letter. -/
def shortName? : Char → Option Name
  | 'j' => some (.setting .jobs)
  | 'h' => some .help
  | 'V' => some .version
  | _ => none

/-- A number below `2 ^ 64`, perhaps with a plus sign. -/
def number? (s : String) : Option Nat :=
  let digits := match s.toList with
    | '+' :: rest => rest
    | digits => digits
  if digits.isEmpty ∨ ¬ digits.all Char.isDigit then none
  else
    let n := digits.foldl (fun n c => n * 10 + (c.toNat - 0x30)) 0
    if n < 0x10000000000000000 then some n else none

/-- The name of a way to make chunks. -/
def chunker? : String → Option Chunker
  | "per-entrypoint" => some .perEntrypoint
  | "split-common" => some .splitCommon
  | _ => none

/-- The name of a mode. -/
def mode? : String → Option Mode
  | "build" => some .build
  | "watch" => some .watch
  | _ => none

/-- The options with one more value. Only sources and entrypoints may be given again. -/
def Options.set? (o : Options) (setting : Setting) (value : String) : Option Options :=
  match setting with
  | .root => if o.root.isSome then .none else some { o with root := some ⟨value⟩ }
  | .config => if o.config.isSome then .none else some { o with config := some ⟨value⟩ }
  | .out => if o.out.isSome then .none else some { o with out := some ⟨value⟩ }
  | .dist => if o.dist.isSome then .none else some { o with dist := some ⟨value⟩ }
  | .source => some { o with sources := o.sources ++ [⟨value⟩] }
  | .entry => some { o with entrypoints := o.entrypoints ++ [value] }
  | .jobs =>
    if o.jobs.isSome then .none
    else (number? value).map fun n => { o with jobs := some n }
  | .chunks =>
    if o.chunks.isSome then .none
    else (chunker? value).map fun c => { o with chunks := some c }

/-- The options with the mode. -/
def Options.setMode? (o : Options) (value : String) : Option Options :=
  if o.mode.isSome then .none else (mode? value).map fun m => { o with mode := some m }

/-- Whether an argument can be the value of the option before it. -/
def isValue (argument : String) : Bool :=
  argument = "-" || ! Text.startsWith "-" argument

/-- A long option: its name, and the value behind its equals sign. -/
def splitLong (text : List Char) : String × Option String :=
  (String.ofList (text.takeWhile (· ≠ '=')),
    match text.dropWhile (· ≠ '=') with
    | [] => none
    | _ :: value => some (String.ofList value))

/-- The value of a short option from the letters behind it; an equals sign in front is left out. -/
def attached : List Char → Option String
  | [] => none
  | '=' :: value => some (String.ofList value)
  | value => some (String.ofList value)

/-- How to go on behind an argument. -/
inductive Next where
  | stop (request : Request)
  /-- Reads on. -/
  | continue_ (options : Options)
  /-- The next argument is the value of a setting. -/
  | await (setting : Setting)

/-- Takes note of a value. -/
def Options.record (o : Options) (setting : Setting) (value : String) : Next :=
  match o.set? setting value with
  | .none => .stop .wrongUsage
  | some o => .continue_ o

/-- Reads one argument before any `--`. -/
def Options.read (o : Options) (argument : String) : Next :=
  match argument.toList with
  | '-' :: '-' :: long =>
    match splitLong long with
    | (name, value) =>
      match longName? name, value with
      | some .help, .none => .stop .help
      | some .version, .none => .stop .version
      | some (.setting setting), some value => o.record setting value
      | some (.setting setting), .none => .await setting
      | _, _ => .stop .wrongUsage
  | '-' :: letter :: rest =>
    match shortName? letter with
    | some .help => .stop .help
    | some .version => .stop .version
    | some (.setting setting) =>
      match attached rest with
      | some value => o.record setting value
      | .none => .await setting
    | .none => .stop .wrongUsage
  | _ =>
    match o.setMode? argument with
    | .none => .stop .wrongUsage
    | some o => .continue_ o

/-- Reads arguments behind `--`, where nothing is an option. -/
def Options.readPlain (o : Options) : List String → Request
  | [] => .run o
  | argument :: rest =>
    match o.setMode? argument with
    | .none => .wrongUsage
    | some o => o.readPlain rest

/-- Reads all arguments; `awaiting` is the setting whose value comes next. -/
def Options.readAll (o : Options) : Option Setting → List String → Request
  | .none, [] => .run o
  | some _, [] => .wrongUsage
  | some setting, argument :: rest =>
    if isValue argument then
      match o.set? setting argument with
      | .none => .wrongUsage
      | some o => o.readAll .none rest
    else .wrongUsage
  | .none, argument :: rest =>
    if argument = "--" then o.readPlain rest
    else
      match o.read argument with
      | .stop request => request
      | .continue_ o => o.readAll .none rest
      | .await setting => o.readAll (some setting) rest

/-- What the arguments ask for. -/
def Request.ofArguments (arguments : List String) : Request := Options.none.readAll .none arguments

/-- The text that explains the arguments. -/
def helpText : String :=
  "Incremental JavaScript compiler and bundler\n" ++
  "\n" ++
  "Usage: kobako [OPTIONS] [MODE]\n" ++
  "\n" ++
  "Arguments:\n" ++
  "  [MODE]  [default: build] [possible values: build, watch]\n" ++
  "\n" ++
  "Options:\n" ++
  "      --root <ROOT>          Project root, every other path is relative to it [default: .]\n" ++
  "      --config <CONFIG>      Project file, " ++ tick ++ "kobako.json" ++ tick ++
    " in the root when present\n" ++
  "      --out <OUT>            Output directory for compiled files\n" ++
  "      --dist <DIST>          Output directory for bundles\n" ++
  "      --src <SOURCES>        Source root, may be repeated\n" ++
  "      --entry <ENTRYPOINTS>  Entrypoint, e.g. " ++ tick ++ "./src/index.js" ++ tick ++
    ", may be repeated\n" ++
  "  -j, --jobs <JOBS>          Number of files compiled in parallel\n" ++
  "      --chunks <CHUNKS>      [possible values: per-entrypoint, split-common]\n" ++
  "  -h, --help                 Print help\n" ++
  "  -V, --version              Print version\n"
where
  /-- A backtick. -/
  tick : String := "\x60"

/-- The text that names the version. -/
def versionText : String := "kobako-cli 0.1.0\n"

end Bundler.CommandLine
