import Bundler.Shell.Tool.Call
import Bundler.Shell.Tool.Mode
import Bundler.Shell.Tool.Moment
import Bundler.Shell.Tool.Names
/-!
# Removing and making entries

The tools that remove files and directories, make them, and change their permission bits and times.
A tool goes on with its other arguments where one of them fails.
-/

namespace Bundler.Shell

/-! ## Removing -/

/-- When somebody is asked before something is removed. -/
inductive Asking where
  | never
  /-- Once, before many files or whole directories. -/
  | once
  | always
  deriving DecidableEq, Repr

/-- How entries are removed. -/
structure Removal where
  recursive : Bool
  empty : Bool
  force : Bool
  asking : Asking
  verbose : Bool

/-- The options of `rm`. -/
def removeOptions : OptionTable :=
  optionTable "dfiIrRv"
    ["d=dir", "f=force", "interactive?", "r=recursive", "v=verbose", "no-preserve-root",
      "one-file-system", "preserve-root?"]

/-- How options say that entries are removed. -/
def Removal.ofArguments (a : Arguments) : Removal :=
  let last := (a.options.reverse.find? fun o => ["f", "i", "I", "interactive"].contains o.1)
  let asking : Asking := match last with
    | some ("i", _) => .always
    | some ("I", _) => .once
    | some ("interactive", w) =>
      if w = "never".toList || w = "no".toList || w = "none".toList then .never
      else if w = "once".toList then .once else .always
    | _ => .never
  ⟨a.hasAny "rR", a.has "d", (last.map (·.1)) = some "f", asking, a.has "v"⟩

/-- Asks before something is removed, if that is wanted. -/
def Removal.allows (r : Removal) (call : Call) (what : String) (name : Octets) : Work Bool := do
  if r.asking = .always then call.confirms (what.toList ++ ' ' :: quotedName name) else return true

/-- Says what was removed, if that is wanted. -/
def Removal.report (r : Removal) (call : Call) (what : String) (name : Octets) : Work Unit := do
  if r.verbose then call.put (what.toList ++ ' ' :: quotedName name ++ ['\n'])

/-- Removes one file. It is no failure if that is not wanted. -/
def removeFile (call : Call) (r : Removal) (l : Location) (content : Bytes) (name : Octets) :
    Work Unit := do
  let what := if content.isEmpty then "remove regular empty file" else "remove regular file"
  if ← r.allows call what name then
    Work.change fun w => w.remove (· = l)
    r.report call "removed" name

/-- Entries in path order, in which every directory comes behind what is in it. The second argument
has the directories whose entries have not all come, the innermost one first. -/
def upwards : List (Location × Node) → List (Location × Node) → List (Location × Node)
  | [], around => around
  | e :: rest, around =>
    let closed := around.takeWhile fun d => ! d.1.isPrefixOf e.1
    let around := around.drop closed.length
    match e.2 with
    | .directory => closed ++ upwards rest (e :: around)
    | .file _ => closed ++ e :: upwards rest around

/-- Removes a directory if nothing is in it and that is wanted. -/
def removeBare (call : Call) (r : Removal) (l : Location) (name : Octets) : Work Unit := do
  if ((← Work.tree).below l).isEmpty then
    if ← r.allows call "remove directory" name then
      Work.change fun w => w.remove (· = l)
      r.report call "removed directory" name

/-- Removes what is in a directory, and then the directory, as far as that is wanted. -/
def removeAll (call : Call) (r : Removal) (l : Location) (name : Octets) : Work Unit := do
  let entries := (← Work.tree).below l
  let wanted ←
    if entries.isEmpty then pure true else r.allows call "descend into directory" name
  if wanted then
    for (m, node) in upwards entries [] do
      let inner := inside name (Octets.joined ['/'] (m.map Octets.ofText))
      let here := l ++ m
      match node with
      | .file content => removeFile call r here content inner
      | .directory =>
        removeBare call r here inner
    removeBare call r l name

/-- Removes a file or directory. -/
def removeOne (call : Call) (r : Removal) (arg : Octets) : Work Bool := do
  let t ← Work.tree
  if isDevice (call.path arg) then
    call.fails (aboutText "cannot remove" arg "Operation not permitted".toList)
  else
    match t.locate (call.path arg) with
    | .error e =>
      if r.force && (e = .notFound || e = .notADirectory) then return true
      else call.fails (about "cannot remove" arg e)
    | .ok l =>
      match t.node? l with
      | some (.file content) =>
        removeFile call r l content arg
        return true
      | _ =>
        if ! (r.recursive || r.empty) then call.fails (about "cannot remove" arg .isADirectory)
        else if l = [] then
          call.complain "it is dangerous to operate recursively on '/'".toList
          call.fails "use --no-preserve-root to override this failsafe".toList
        else if isDots arg then
          call.fails ("refusing to remove '.' or '..' directory: skipping ".toList ++ quotedName arg)
        else if r.recursive then
          removeAll call r l (withoutSlashes arg)
          return true
        else if ! (t.below l).isEmpty then
          call.fails (aboutText "cannot remove" arg "Directory not empty".toList)
        else
          if ← r.allows call "remove directory" arg then
            Work.change fun w => w.remove (· = l)
            r.report call "removed directory" arg
          return true

/-- Removes files, and with `-r` directories. -/
def Tool.rm : Tool := fun call =>
  withOptions removeOptions call fun a => do
    let r := Removal.ofArguments a
    let count := a.operands.length
    if count = 0 then
      if r.force then return 0 else call.refuse "missing operand".toList
    else
      let many := r.asking = .once && (3 < count || r.recursive)
      let question := "remove ".toList ++ Octets.ofNat count ++
        (if count = 1 then " argument" else " arguments").toList ++
        (if r.recursive then " recursively" else "").toList
      let agreed ← if many then call.confirms question else pure true
      if agreed then forAll a.operands (removeOne call r) else return 0

/-- Removes an empty directory. -/
def removeEmpty (call : Call) (a : Arguments) (what : String) (arg : Octets) : Work Bool := do
  let t ← Work.tree
  if a.has "v" then
    call.put (call.name ++ ": removing directory, ".toList ++ quotedName arg ++ ['\n'])
  match t.locate (call.path arg) with
  | .error e => call.fails (about what arg e)
  | .ok l =>
    if t.node? l ≠ some .directory then call.fails (about what arg .notADirectory)
    else if lastName arg = ['.'] then
      call.fails (aboutText what arg "Invalid argument".toList)
    else if ! (t.below l).isEmpty then
      if a.has "ignore-fail-on-non-empty" then return true
      else call.fails (aboutText what arg "Directory not empty".toList)
    else
      Work.change fun w => w.remove (· = l)
      return true

/-- Removes empty directories, with `-p` also those that they lie in. -/
def Tool.rmdir : Tool := fun call =>
  let table := optionTable "pv" ["p=parents", "p=path", "v=verbose", "ignore-fail-on-non-empty"]
  withOptions table call fun a => do
    if a.operands.isEmpty then call.refuse "missing operand".toList
    else
      forAll a.operands fun arg => do
        if ! (← removeEmpty call a "failed to remove" arg) then return false
        else if ! a.has "p" then return true
        else
          ((parentsOf arg).eraseDups.drop 1).foldlM (fun fine p => do
            if fine then removeEmpty call a "failed to remove directory" p else return false) true

/-! ## Making -/

/-- Makes one directory. -/
def makeOne (call : Call) (a : Arguments) (bits mask : Nat) (arg : Octets) : Work Bool := do
  match (← Work.world).makeDirectory (call.path arg) bits mask with
  | .error e => call.fails (about "cannot create directory" arg e)
  | .ok w =>
    Work.change fun _ => w
    if a.has "v" then
      call.put (call.name ++ ": created directory ".toList ++ quotedName arg ++ ['\n'])
    return true

/-- Makes a directory with the missing ones that it lies in. -/
def makeAll (call : Call) (a : Arguments) (bits mask : Nat) (arg : Octets) : Work Bool :=
  let path := withoutSlashes arg
  ((parentsOf arg).eraseDups.reverse).foldlM (fun fine p => do
    if ! fine then return false
    else if (← Work.tree).isDirectory (call.path p) then return true
    else if p = path then makeOne call a bits mask p
    else if (← Work.tree).contains (call.path p) then
      call.fails (about "cannot create directory" p .notADirectory)
    else makeOne call a 0o777 call.mask p) true

/-- Makes directories, with `-p` also those that they lie in. -/
def Tool.mkdir : Tool := fun call =>
  withOptions (optionTable "m:pvZ" ["m=mode:", "p=parents", "v=verbose"]) call fun a => do
    if a.operands.isEmpty then call.refuse "missing operand".toList
    else
      let make (bits mask : Nat) : Work Nat :=
        forAll a.operands fun arg =>
          if a.has "p" then makeAll call a bits mask arg else makeOne call a bits mask arg
      match a.value? "m" with
      | none => make 0o777 call.mask
      | some text =>
        match ModeChange.read? text with
        | none => call.gives 1 ("invalid mode ".toList ++ quotedName text)
        | some changes => make (ModeChange.applyAll changes true call.mask 0o777) 0

/-! ## Times -/

/-- The time that the options of a call ask for, in millionths of a second, or what is wrong. -/
def wantedTime (call : Call) (a : Arguments) : Work (Except Octets Int) := do
  let now := (← Work.world).clock
  let wrong (s : Octets) : Except Octets Int :=
    .error ("invalid date format ".toList ++ quotedName s)
  match a.value? "r", a.value? "d", a.value? "t" with
  | some file, _, _ =>
    match ← call.status? file with
    | some s => return .ok s.time
    | none => return .error (about "failed to get attributes of" file .notFound)
  | none, some text, _ =>
    match text with
    | '@' :: digits =>
      match Octets.nat? digits with
      | some n => return .ok (n * 1000000)
      | none => return wrong text
    | _ =>
      if text = "now".toList || text.isEmpty then return .ok now
      else
        match Moment.read? text with
        | some m => return .ok (m.seconds * 1000000)
        | none => return wrong text
  | none, none, some text =>
    match Moment.readDigits? (Moment.ofSeconds (now / 1000000)).year text with
    | some m => return .ok (m.seconds * 1000000)
    | none => return wrong text
  | none, none, none => return .ok now

/-- Sets the times of files, and makes those that are not there. -/
def Tool.touch : Tool := fun call =>
  let table := optionTable "acd:fhmr:t:"
    ["c=no-create", "d=date:", "h=no-dereference", "r=reference:", "time:"]
  withOptions table call fun a => do
    match ← wantedTime call a with
    | .error message => call.gives 1 message
    | .ok time =>
      let onlyAccess := a.has "a" && ! a.has "m"
      if a.operands.isEmpty then call.refuse "missing file operand".toList
      else
        forAll a.operands fun arg => do
          if arg = ['-'] || isDevice (call.path arg) then return true
          else
            let set (l : Location) : Work Unit :=
              unless onlyAccess do Work.change fun w => w.stamp l time
            match ← call.locate? arg with
            | some l =>
              set l
              return true
            | none =>
              if a.has "c" then return true
              else
                match ← call.openFile arg .append with
                | .error e =>
                  let what := if e = .isADirectory then "setting times of" else "cannot touch"
                  call.fails (about what arg (if e = .isADirectory then .notFound else e))
                | .ok _ =>
                  match ← call.locate? arg with
                  | some l =>
                    set l
                    return true
                  | none => return true

/-! ## Permission bits -/

/-- Puts a mode that looks like an option in front of other arguments. -/
def modeFirst (args : List Octets) : List Octets :=
  match args with
  | ('-' :: c :: more) :: rest =>
    if "rwxXstugoa,+=01234567".toList.contains c then "--".toList :: ('-' :: c :: more) :: rest
    else ('-' :: c :: more) :: modeFirst rest
  | args => args

/-- Changes the permission bits of an entry, and says so if that is wanted. -/
def changeMode (call : Call) (a : Arguments) (change : Bool → Nat → Nat) (l : Location)
    (name : Octets) : Work Unit := do
  let t ← Work.tree
  let old := t.mode l
  let new := change (t.node? l = some .directory) old
  Work.change fun w => w.setMode l new
  let start := "mode of ".toList ++ quotedName name
  if old ≠ new then
    if a.hasAny "cv" then
      call.put (start ++ " changed from ".toList ++ describedMode old ++ " to ".toList ++
        describedMode new ++ ['\n'])
  else if a.has "v" then call.put (start ++ " retained as ".toList ++ describedMode new ++ ['\n'])

/-- Changes permission bits. -/
def Tool.chmod : Tool := fun call =>
  let table := optionTable "Rcfv"
    ["c=changes", "R=recursive", "f=silent", "f=quiet", "v=verbose", "reference:",
      "preserve-root", "no-preserve-root"]
  withOptions table { call with args := modeFirst call.args } fun a => do
    let run (change : Bool → Nat → Nat) (files : List Octets) : Work Nat :=
      forAll files fun arg => do
        let t ← Work.tree
        if isDevice (call.path arg) then return true
        else
          match t.locate (call.path arg) with
          | .error e =>
            if a.has "f" then return false else call.fails (about "cannot access" arg e)
          | .ok l =>
            changeMode call a change l arg
            if a.has "R" then
              for (m, _) in t.below l do
                let name := inside arg (Octets.joined ['/'] (m.map Octets.ofText))
                changeMode call a change (l ++ m) name
            return true
    match a.value? "reference", a.operands with
    | some file, files =>
      match ← call.status? file with
      | none => call.gives 1 (about "failed to get attributes of" file .notFound)
      | some s =>
        if files.isEmpty then call.refuse "missing operand".toList
        else run (fun _ _ => s.mode) files
    | none, [] => call.refuse "missing operand".toList
    | none, [mode] => call.refuse ("missing operand after ".toList ++ quotedName mode)
    | none, mode :: files =>
      match ModeChange.read? mode with
      | none => call.refuse ("invalid mode: ".toList ++ quotedName mode)
      | some changes =>
        run (fun isDirectory bits => ModeChange.applyAll changes isDirectory call.mask bits) files

end Bundler.Shell
