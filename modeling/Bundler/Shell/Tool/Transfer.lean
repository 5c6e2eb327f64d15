import Bundler.Shell.Tool.Call
import Bundler.Shell.Tool.Names
/-!
# Copying, moving and linking

What `cp`, `mv` and `ln` have in common: where files go, what is asked before a file is overwritten,
and what becomes of it then. A tool goes on with its other arguments where one of them fails.
-/

namespace Bundler.Shell

/-! ## Backups -/

/-- How the file is named that keeps what would be overwritten. -/
inductive Backup where
  | simple
  | numbered
  /-- Numbered where there are numbered ones already. -/
  | existing
  deriving DecidableEq, Repr

/-- The ways to keep files by name. -/
def Backup.names : List (String × Option Backup) :=
  [("none", none), ("off", none), ("simple", some .simple), ("never", some .simple),
    ("existing", some .existing), ("nil", some .existing), ("numbered", some .numbered),
    ("t", some .numbered)]

/-- The way to keep files that a name means, which may be cut. -/
def Backup.ofName? (name : Octets) : Option (Option Backup) :=
  match names.lookup (String.ofList name) with
  | some b => some b
  | none =>
    match (names.filter fun e => name.isPrefixOf e.1.toList).map (·.2) with
    | [] => none
    | b :: more => if more.all (· = b) then some b else none

/-- The number of a numbered backup of a name. -/
def backupNumber? (base name : Octets) : Option Nat :=
  let start := base ++ ".~".toList
  if start.isPrefixOf name && name.getLast? = some '~' then
    Octets.nat? (name.drop start.length).dropLast
  else none

/-- The name under which a file is kept. -/
def Backup.nameFor (b : Backup) (t : FileTree) (directory : Path) (suffix file : Octets) : Octets :=
  let around := ((t.locate (pathOf directory (directoryOf file))).toOption.map fun l =>
    (t.below l).filterMap fun e =>
      match e.1 with
      | [name] => some (Octets.ofText name)
      | _ => none).getD []
  let last := (around.filterMap (backupNumber? (lastName file))).foldl max 0
  let isNumbered := b = .numbered || (b = .existing && 0 < last)
  let name := withoutSlashes file
  if isNumbered then name ++ ".~".toList ++ Octets.ofNat (last + 1) ++ ['~'] else name ++ suffix

/-! ## Ways to transfer -/

/-- How files are copied or moved. -/
structure Transfer where
  moving : Bool
  recursive : Bool
  /-- Files get another name in the place of a copy. -/
  linking : Bool
  /-- Only files that are missing are made, without content. -/
  hollow : Bool
  /-- Files that are there stay as they are. -/
  keep : Bool
  /-- Somebody is asked before a file is overwritten. -/
  ask : Bool
  /-- Files that are not older stay as they are. -/
  update : Bool
  force : Bool
  /-- Files that are there are removed first. -/
  removing : Bool
  verbose : Bool
  /-- Copies get the permission bits and times as well. -/
  preserve : Bool
  backup : Option Backup
  suffix : Octets

/-- The options of `cp`. -/
def copyOptions : OptionTable :=
  optionTable "abdfiHlLnPpRrsS:Tt:uvxZ"
    ["a=archive", "attributes-only", "backup?", "copy-contents", "f=force", "i=interactive",
      "l=link", "L=dereference", "n=no-clobber", "P=no-dereference", "no-preserve:", "x=one-file-system",
      "parents", "preserve?", "r=recursive", "reflink?", "remove-destination", "sparse:",
      "strip-trailing-slashes", "S=suffix:", "s=symbolic-link", "t=target-directory:",
      "T=no-target-directory", "update?", "v=verbose"]

/-- The options of `mv`. -/
def moveOptions : OptionTable :=
  optionTable "bfinS:Tt:uvZ"
    ["backup?", "f=force", "i=interactive", "n=no-clobber", "strip-trailing-slashes", "S=suffix:",
      "t=target-directory:", "T=no-target-directory", "update?", "v=verbose"]

/-- The way that options ask for, or the wrong name of a way to keep files. -/
def Transfer.ofArguments (moving : Bool) (environment : List (String × Octets)) (a : Arguments) :
    Except Octets Transfer := do
  let suffix := (a.value? "S").orElse fun _ => environment.lookup "SIMPLE_BACKUP_SUFFIX"
  let isWanted := a.hasAny "bS" || a.has "backup"
  let control := (a.value? "backup").filter (! ·.isEmpty)
  let control := control.orElse fun _ => environment.lookup "VERSION_CONTROL"
  let backup ←
    if ! isWanted then pure none
    else
      match control with
      | none => pure (some .existing)
      | some name =>
        match Backup.ofName? name with
        | some b => pure b
        | none => throw ("invalid argument ".toList ++ quotedName name ++ " for 'backup type'".toList)
  let updates := a.has "u" || (a.has "update" && (a.value? "update").getD [] ≠ "all".toList)
  let keepsAll := (a.value? "update").any fun s => s ≠ [] && "none".toList.isPrefixOf s
  -- of the options that say what happens to files that are there, the last one counts
  let last := if moving then a.lastOf "fin" else (a.options.reverse.findSome? fun o =>
    if o.1 = "n" then some 'n' else if o.1 = "i" then some 'i' else none)
  return {
    moving
    recursive := moving || a.hasAny "rRa"
    linking := a.has "l"
    hollow := a.has "attributes-only"
    keep := last = some 'n' || keepsAll
    ask := last = some 'i'
    update := updates && ! keepsAll
    force := a.has "f"
    removing := a.has "remove-destination"
    verbose := a.has "v"
    preserve := a.hasAny "pa" || a.has "preserve"
    backup
    suffix := match suffix with
      | some s => if s.isEmpty || s.contains '/' then ['~'] else s
      | none => ['~'] }

/-! ## Destinations -/

/-- Where the files of a call go. -/
inductive Destination where
  /-- To one name. -/
  | name (s : Octets)
  | into (directory : Octets)
  | wrong (message : Octets) (usage : Bool)

/-- Parts the operands of a call into sources and destination. -/
def destination (call : Call) (t : FileTree) (a : Arguments) : List Octets × Destination :=
  let isDirectory (s : Octets) : Bool := t.isDirectory (call.path s)
  let obstacle (s : Octets) : IoError :=
    match t.locate (call.path s) with
    | .ok _ => .notADirectory
    | .error e => e
  match a.value? "t" with
  | some dir =>
    if a.operands.isEmpty then ([], .wrong "missing file operand".toList true)
    else if a.has "T" then
      ([], .wrong ("cannot combine --target-directory (-t) " ++
        "and --no-target-directory (-T)").toList false)
    else if isDirectory dir then (a.operands, .into dir)
    else ([], .wrong (about "target directory" dir (obstacle dir)) false)
  | none =>
    match a.operands.reverse with
    | [] => ([], .wrong "missing file operand".toList true)
    | [src] =>
      ([], .wrong ("missing destination file operand after ".toList ++ quotedName src) true)
    | dst :: src :: more =>
      let sources := more.reverse ++ [src]
      if a.has "T" then
        match a.operands with
        | [_, _] => (sources, .name dst)
        | _ =>
          ([], .wrong ("extra operand ".toList ++ quotedName (a.operands[2]?.getD [])) true)
      else if isDirectory dst then (sources, .into dst)
      else if more.isEmpty then (sources, .name dst)
      else ([], .wrong (about "target" dst (obstacle dst)) false)

/-- What a call has done with its operands so far: the files that were sources, and those that it
made. -/
structure Handled where
  sources : List Location
  made : List Location

/-- Puts several files into a directory. -/
def putInto (call : Call) (directory : Octets) (work : Handled → Octets → Octets → Work Bool) :
    Handled → List Octets → Work Nat
  | _, [] => return 0
  | h, src :: rest => do
    let name := lastName src
    let dst := if name = "..".toList then directory else inside directory name
    let before := (← call.locate? src).toList
    let fine ← work h src dst
    let made := (← call.locate? dst).toList
    let code ← putInto call directory work ⟨before ++ h.sources, made ++ h.made⟩ rest
    return if fine then code else 1

/-! ## Files that are there -/

/-- Says what is copied, moved or linked, if that is wanted. -/
def announce (call : Call) (o : Transfer) (what : String) (src dst : Octets)
    (kept : Option Octets) : Work Unit := do
  if o.verbose then
    let backup := match kept with
      | none => []
      | some name => " (backup: ".toList ++ quotedName name ++ [')']
    call.put (what.toList ++ quotedName src ++ " -> ".toList ++ quotedName dst ++ backup ++ ['\n'])

/-- Moves an entry that is in the way to the name of a backup, if that is wanted; the name is given
back. -/
def keepBackup (call : Call) (o : Transfer) (l : Location) (dst : Octets) : Work (Option Octets) := do
  match o.backup with
  | none => return none
  | some b =>
    if isDots dst then return none
    else
      let name := b.nameFor (← Work.tree) call.directory o.suffix dst
      let m := l.dropLast ++ [(lastName name).text]
      Work.change fun w => w.relocate l m
      return some name

/-- Whether an entry that is there is to stay, by what the options say or somebody answers. -/
def stays (call : Call) (o : Transfer) (src dst : Octets) (isDirectory : Bool) : Work Bool := do
  let w ← Work.world
  let time (arg : Octets) : Work Int := do
    return ((← call.status? arg).map (·.time)).getD w.clock
  let (old, new) := (← time dst, ← time src)
  if o.update && ! isDirectory && new ≤ old then return true
  else if isDirectory && ! o.moving then return false
  else if o.keep then return true
  else if o.ask then return ! (← call.confirms ("overwrite ".toList ++ quotedName dst))
  else return false

/-- A message about two files. -/
def aboutBoth (what : String) (src : Octets) (between : String) (dst : Octets) : Octets :=
  what.toList ++ quotedName src ++ between.toList ++ quotedName dst

/-- Why an entry cannot take the place of another one of another kind. -/
def clash? (o : Transfer) (src dst : Octets) (isDirectory thereIsDirectory : Bool) : Option Octets :=
  if o.moving && o.backup.isSome then none
  else if isDirectory && ! thereIsDirectory then
    some (aboutBoth "cannot overwrite non-directory " dst " with directory " src)
  else if ! isDirectory && thereIsDirectory then
    some ("cannot overwrite directory ".toList ++ quotedName dst ++ " with non-directory".toList)
  else none

/-! ## Copying -/

/-- Writes a copy of what a file holds into a file. A file that is new gets permission bits. -/
def copyContent (call : Call) (o : Transfer) (bits : Nat) (src dst : Octets) : Work Bool := do
  let isNew := (← call.status? dst).isNone
  match ← call.openFile src .read with
  | .error e => call.fails ("cannot open ".toList ++ quotedName src ++ " for reading: ".toList ++
      (reason e).toList)
  | .ok source =>
    match ← call.openFile dst (if o.hollow then .both else .write) with
    | .error e =>
      let e := if isNew && dst.getLast? = some '/' then .notADirectory else e
      call.fails (about "cannot create regular file" dst e)
    | .ok target =>
      if isNew then
        match ← call.locate? dst with
        | some l => Work.change fun w => w.setMode l (bits &&& (0o777 - call.mask % 0o1000))
        | none => pure ()
      if o.hollow then return true
      else
        match ← call.eachPiece source none fun _ piece => do
          match ← Work.lift (Kernel.emit target piece) with
          | .ok () => return (none, true)
          | .error e => return (some e, false) with
        | .error e => call.fails (aboutText "error reading" src e)
        | .ok (some e) => call.fails (aboutText "error writing" dst e.reason)
        | .ok none => return true

/-- Gives a copy the permission bits and the time of what was copied, if that is wanted. -/
def preserve (call : Call) (o : Transfer) (s : Status) (dst : Octets) : Work Unit := do
  if o.preserve then
    match ← call.locate? dst with
    | none => pure ()
    | some l => Work.change fun w => (w.setMode l s.mode).stamp l s.time

/-- Gives a file another name. What begins the message about a failure is given. -/
def linkFile (call : Call) (start : Octets) (src dst : Octets) : Work Bool := do
  let t ← Work.tree
  let cannot (e : IoError) : Work Bool := call.fails (start ++ ": ".toList ++ (reason e).toList)
  match t.locate (call.path src), t.aim (call.path dst) with
  | .error e, _ => cannot e
  | _, .error e => cannot e
  | .ok _, .ok (.directory _) => cannot .alreadyExists
  | .ok l, .ok (.name parent name slash) =>
    if (t.node? (parent ++ [name])).isSome then cannot .alreadyExists
    else if slash then cannot .notFound
    else
      Work.change fun w => { w with tree := w.tree.link l (parent ++ [name]) }
      return true

/-- Copies one file that is no directory. -/
def copyFile (call : Call) (o : Transfer) (h : Handled) (s : Status) (src dst : Octets) :
    Work Bool := do
  let finish (kept : Option Octets) : Work Bool := do
    announce call o "" src dst kept
    if o.linking && s.kind = .file then
      linkFile call (aboutBoth "cannot create hard link " dst " to " src) src dst
    else
      let fine ← copyContent call o s.mode src dst
      if fine then preserve call o s dst
      return fine
  match ← call.status? dst with
  | none => finish none
  | some there =>
    let t ← Work.tree
    let isSame := s.location.isSome && there.location = s.location
    let isLinked :=
      match s.location, there.location with
      | some l, some m => (t.names l).contains m
      | _, _ => false
    if isSame && o.force && o.backup.isSome && ! o.linking then
      -- a file is copied to its own backup
      let name := (o.backup.getD .simple).nameFor t call.directory o.suffix dst
      announce call o "" src name none
      copyContent call o s.mode src name
    else if (isSame || isLinked) && o.linking then return true
    else if isSame || (isLinked && o.backup.isNone && ! o.removing) then
      call.fails (aboutBoth "" src " and " dst ++ " are the same file".toList)
    else if ← stays call o src dst false then return true
    else
      match clash? o src dst false (there.kind = .directory) with
      | some message => call.fails message
      | none =>
        match there.location with
        | none => finish none
        | some l =>
          if h.made.contains l && o.backup ≠ some .numbered then
            call.fails (aboutBoth "will not overwrite just-created " dst " with " src)
          else
            let kept ← keepBackup call o l dst
            if kept.isNone && (o.removing || (o.linking && (o.force || o.ask))) then
              Work.change fun w => w.remove (· = l)
              if o.removing && o.verbose then
                call.put ("removed ".toList ++ quotedName dst ++ ['\n'])
            finish kept

/-- Makes sure that there is a directory for the entries of another one. -/
def copyOneDirectory (call : Call) (o : Transfer) (s : Status) (src dst : Octets) : Work Bool := do
  match ← call.status? dst with
  | some there =>
    match clash? o src dst true (there.kind = .directory) with
    | some message => call.fails message
    | none => return true
  | none =>
    match (← Work.world).makeDirectory (call.path dst) s.mode call.mask with
    | .error e => call.fails (about "cannot create directory" dst e)
    | .ok w =>
      Work.change fun _ => w
      announce call o "" src dst none
      return true

/-- Copies the entries of a directory, which are named relative to it. What is below a directory
that could not be made (`missing`) is left out. -/
def copyEntries (call : Call) (o : Transfer) (src dst : Octets) (missing : List Location) :
    List (Location × Node) → Work Bool
  | [] => return true
  | (l, node) :: rest => do
    if missing.any fun m => m.isPrefixOf l then copyEntries call o src dst missing rest
    else
      let name := Octets.joined ['/'] (l.map Octets.ofText)
      let one := inside src name
      let other := inside dst name
      match ← call.status? one with
      | none => copyEntries call o src dst missing rest
      | some s =>
        let fine ←
          if node = .directory then copyOneDirectory call o s one other
          else copyFile call o ⟨[], []⟩ s one other
        let missing := if fine || node ≠ .directory then missing else l :: missing
        return (← copyEntries call o src dst missing rest) && fine

/-- Copies a directory with all that is in it. What is copied into itself is not copied again. -/
def copyDirectory (call : Call) (o : Transfer) (s : Status) (src dst : Octets) : Work Bool := do
  let top := s.location.getD []
  let entries := (← Work.tree).below top
  if ! (← copyOneDirectory call o s src dst) then return false
  else
    let target := (← call.locate? dst).getD []
    let fine ←
      if top.isPrefixOf target then
        let copied := entries.filter fun e => ! (target.drop top.length).isPrefixOf e.1
        let _ ← copyEntries call o src dst [] copied
        call.fails (aboutBoth "cannot copy a directory, " src ", into itself, " dst)
      else copyEntries call o src dst [] entries
    preserve call o s dst
    return fine

/-- Copies a file or directory. -/
def copyOne (call : Call) (o : Transfer) (h : Handled) (src dst : Octets) : Work Bool := do
  match ← call.status? src with
  | none =>
    let e := match (← Work.tree).locate (call.path src) with
      | .error e => e
      | .ok _ => .notFound
    call.fails (about "cannot stat" src e)
  | some s =>
    if s.kind = .directory && ! o.recursive then
      call.fails ("-r not specified; omitting directory ".toList ++ quotedName src)
    else if o.backup.isNone && s.location.any h.sources.contains then
      call.complain ("warning: source ".toList ++
        (if s.kind = .directory then "directory " else "file ").toList ++ quotedName src ++
        " specified more than once".toList)
      return true
    else if s.kind = .directory then copyDirectory call o s src dst
    else copyFile call o h s src dst

/-- Copies a file under its whole path into a directory. -/
def copyWithParents (call : Call) (o : Transfer) (directory : Octets) (h : Handled) (src : Octets) :
    Work Bool := do
  let short := src.dropWhile (· == '/')
  let above := ((parentsOf short).drop 1).reverse
  let fine ← above.foldlM (fun fine p => do
    let path := inside directory p
    if ! fine || (← Work.tree).isDirectory (call.path path) then return fine
    else
      match (← Work.world).makeDirectory (call.path path) 0o777 call.mask with
      | .error e => call.fails (about "cannot make directory" path e)
      | .ok w =>
        Work.change fun _ => w
        if o.verbose then call.put (p ++ " -> ".toList ++ path ++ ['\n'])
        return true) true
  if fine then copyOne call o h src (inside directory short) else return false

/-- Copies files and directories. -/
def Tool.cp : Tool := fun call =>
  withOptions copyOptions call fun a => do
    match Transfer.ofArguments false call.environment a with
    | .error message => call.refuse message
    | .ok o =>
      let strip (s : Octets) : Octets :=
        if a.has "strip-trailing-slashes" then withoutSlashes s else s
      match destination call (← Work.tree) a with
      | (_, .wrong message true) => call.refuse message
      | (_, .wrong message false) => call.gives 1 message
      | (sources, .name dst) =>
        if a.has "parents" then
          call.refuse "with --parents, the destination must be a directory".toList
        else forAll sources fun src => copyOne call o ⟨[], []⟩ (strip src) dst
      | (sources, .into dir) =>
        if a.has "parents" then
          forAll sources fun src => copyWithParents call o dir ⟨[], []⟩ (strip src)
        else putInto call dir (copyOne call o) ⟨[], []⟩ (sources.map strip)

/-! ## Moving -/

/-- Moves a file or directory. -/
def moveOne (call : Call) (o : Transfer) (h : Handled) (src dst : Octets) : Work Bool := do
  let t ← Work.tree
  let cannot (e : Octets) : Work Bool :=
    call.fails (aboutBoth "cannot move " src " to " dst ++ ": ".toList ++ e)
  match t.locate (call.path src) with
  | .error e => call.fails (about "cannot stat" src e)
  | .ok l =>
    let isDirectory := t.node? l = some .directory
    match t.aim (call.path dst) with
    | .error e => cannot (reason e).toList
    | .ok (.directory _) => cannot "Device or resource busy".toList
    | .ok (.name parent name slash) =>
      let m := parent ++ [name]
      let there := t.node? m
      let isSame := l = m || (there.isSome && (t.names l).contains m)
      if isSame && ! (l ≠ m && o.backup.isSome) then
        call.fails (aboutBoth "" src " and " dst ++ " are the same file".toList)
      else
        let kept ← if there.isSome then stays call o src dst isDirectory else pure false
        let clash := if there.isNone || kept then none
          else clash? o src dst isDirectory (there = some .directory)
        if kept then return true
        match clash with
        | some message => call.fails message
        | none =>
          if there.isSome && ! isDirectory && h.made.contains m && o.backup ≠ some .numbered then
            call.fails (aboutBoth "will not overwrite just-created " dst " with " src)
          else if isDirectory && l.isPrefixOf m then
            call.fails (aboutBoth "cannot move " src " to a subdirectory of itself, " dst)
          else if isDots src then cannot "Device or resource busy".toList
          else if ! isDirectory && slash then cannot (reason .notADirectory).toList
          else
            let kept ← if there.isSome then keepBackup call o m dst else pure none
            if kept.isNone && ! (t.below m).isEmpty then
              call.fails (aboutText "cannot overwrite" dst "Directory not empty".toList)
            else
              Work.change fun w => w.relocate l m
              announce call o "renamed " src dst kept
              return true

/-- Moves files and directories. -/
def Tool.mv : Tool := fun call =>
  withOptions moveOptions call fun a => do
    match Transfer.ofArguments true call.environment a with
    | .error message => call.refuse message
    | .ok o =>
      let strip (s : Octets) : Octets :=
        if a.has "strip-trailing-slashes" then withoutSlashes s else s
      match destination call (← Work.tree) a with
      | (_, .wrong message true) => call.refuse message
      | (_, .wrong message false) => call.gives 1 message
      | (sources, .name dst) => forAll sources fun src => moveOne call o ⟨[], []⟩ (strip src) dst
      | (sources, .into dir) => putInto call dir (moveOne call o) ⟨[], []⟩ (sources.map strip)

/-! ## Linking -/

/-- Gives a file one more name. -/
def linkOne (call : Call) (o : Transfer) (_ : Handled) (src dst : Octets) : Work Bool := do
  let t ← Work.tree
  match t.locate (call.path src) with
  | .error e => call.fails (about "failed to access" src e)
  | .ok l =>
    if t.node? l = some .directory then
      call.fails (src ++ ": hard link not allowed for directory".toList)
    else
      let finish (kept : Option Octets) : Work Bool := do
        let isThere := t.contains (call.path dst)
        let start := if isThere then "failed to create hard link ".toList ++ quotedName dst
          else aboutBoth "failed to create hard link " dst " => " src
        let fine ← linkFile call start src dst
        if fine && o.verbose then
          let backup := match kept with
            | none => []
            | some name => " ~ ".toList ++ quotedName name
          call.put (quotedName dst ++ backup ++ " => ".toList ++ quotedName src ++ ['\n'])
        return fine
      match t.locate (call.path dst) with
      | .error _ => finish none
      | .ok m =>
        let isSame := (t.names l).contains m
        if t.node? m = some .directory then
          if o.force || o.ask || o.backup.isSome then
            call.fails (quotedName dst ++ ": cannot overwrite directory".toList)
          else finish none
        else if isSame && (l = m || o.backup.isNone) && (o.force || o.ask || o.backup.isSome) then
          if l = m then call.fails (aboutBoth "" src " and " dst ++ " are the same file".toList)
          else return true
        else
          let agreed ←
            if o.ask then call.confirms ("replace ".toList ++ quotedName dst) else pure true
          if ! agreed then return false
          let kept ← keepBackup call o m dst
          if kept.isNone && (o.force || o.ask) then Work.change fun w => w.remove (· = m)
          finish kept

/-- Gives files more names. -/
def Tool.ln : Tool := fun call =>
  let table := optionTable "bdFfiLnPrS:sTt:v"
    ["backup?", "d=directory", "f=force", "i=interactive", "L=logical", "n=no-dereference",
      "P=physical", "r=relative", "s=symbolic", "S=suffix:", "t=target-directory:",
      "T=no-target-directory", "v=verbose"]
  withOptions table call fun a => do
    match Transfer.ofArguments true call.environment a with
    | .error message => call.refuse message
    | .ok o =>
      let a := match a.operands, a.value? "t" with
        | [_], none => { a with operands := a.operands ++ [['.']] }
        | _, _ => a
      if a.has "s" then
        call.gives 1 "failed to create symbolic link: Operation not permitted".toList
      else
        match destination call (← Work.tree) a with
        | (_, .wrong message true) => call.refuse message
        | (_, .wrong message false) => call.gives 1 message
        | (sources, .name dst) => forAll sources fun src => linkOne call o ⟨[], []⟩ src dst
        | (sources, .into dir) => putInto call dir (linkOne call o) ⟨[], []⟩ sources

end Bundler.Shell
