import Bundler.Shell.Script
/-!
# Redirections

A command can have its streams connected to other channels. They are put back behind it, unless they
are to stay.
-/

namespace Bundler.Shell

/-- A redirection with its words expanded. -/
inductive RedirectTarget where
  | file (stream : Nat) (mode : OpenMode) (name : Octets)
  /-- A copy of a stream; without one the stream is closed. -/
  | copy (stream : Nat) (source : Option Nat)
  | document (stream : Nat) (number : Nat)

/-- The stream that a redirection changes. -/
def RedirectTarget.stream : RedirectTarget → Nat
  | file n _ _ => n
  | copy n _ => n
  | document n _ => n

namespace Run

/-- Expands the words of a redirection. -/
def target : Redirect → Action RedirectTarget
  | .file stream mode name => return .file stream mode (← expandText output name)
  | .copy stream source => do
    match ← expandText output source with
    | ['-'] => return .copy stream none
    | [c] =>
      if c.isDigit then return .copy stream (some (c.toNat - 0x30))
      else Action.fail "Syntax error: Bad fd number".toList
    | _ => Action.fail "Syntax error: Bad fd number".toList
  | .document stream number => return .document stream number

/-- Why a file could not be opened, in the words of the shell. -/
def openReason (missing : String) (e : IoError) : Octets :=
  (if e = .notFound ∨ e = .notADirectory then missing else reason e).toList

/-- Why a file that is to be read could not be opened. -/
def failToOpen {α : Type} (file : Octets) (e : IoError) : Action α :=
  Action.fail ("cannot open ".toList ++ file ++ ": ".toList ++ openReason "No such file" e)

/-- Opens a file; its channel is given back. -/
def openChannel (name : Octets) (mode : OpenMode) : Action (Except IoError Nat) := do
  let s ← Action.session
  let p := pathOf s.directory name
  let w ← Action.world
  let isPlain := match w.status? (← Action.lift Kernel.self).streams p with
    | some status => status.kind = .file
    | none => false
  if mode = .write && s.options.keepFiles && isPlain then return .error .alreadyExists
  else Action.lift (Kernel.openFile p mode s.mask)

/-- Does what a redirection says. -/
def openTarget (t : RedirectTarget) : Action Unit := do
  match t with
  | .file stream mode name =>
    match ← openChannel name mode with
    | .ok n => Action.lift (Kernel.connect stream n)
    | .error e =>
      if mode = .read then failToOpen name e
      else
        Action.fail ("cannot create ".toList ++ name ++ ": ".toList ++
          openReason "Directory nonexistent" e)
  | .copy stream none =>
    Action.lift (Kernel.update fun p => { p with streams := p.streams.filter fun e => e.1 ≠ stream })
  | .copy stream (some source) =>
    match ← Action.lift (Kernel.stream? source) with
    | some n => Action.lift (Kernel.connect stream n)
    | none => Action.fail (Octets.ofNat source ++ ": Bad file descriptor".toList)
  | .document stream number =>
    let content ← expandText output ((← Action.session).documents[number]?.getD [])
    Action.lift do
      let (reading, writing) ← Kernel.newPipe
      match (← get).channel writing with
      | .pipe k _ => modify fun w => w.setPipe k ((w.pipe k).add content)
      | _ => pure ()
      Kernel.connect stream reading

/-- Does something with redirections. Where one of them fails, nothing is done; that ends the shell
if `strict` says so. The streams are put back unless `keep` says that they stay. -/
def redirected (redirects : List Redirect) (strict keep : Bool) (action : Action Unit) :
    Action Unit := do
  if redirects.isEmpty then action
  else
    let targets ← redirects.mapM target
    let changed := (targets.map RedirectTarget.stream).eraseDups
    let before := (← Action.lift Kernel.self).streams.filter fun e => changed.contains e.1
    Action.lift (before.forM fun e => Kernel.hold e.2)
    let restore : Action Unit :=
      Action.lift (Kernel.update fun p =>
        { p with
          streams := before ++ p.streams.filter fun e => ! changed.contains e.1
          held := before.foldl (fun held e => held.erase e.2) p.held })
    match ← Action.outcome (targets.forM openTarget) with
    | .ok () =>
      if keep then
        Action.lift (before.forM fun e => Kernel.release e.2)
        action
      else Action.behind action restore
    | .error .failed =>
      restore
      Action.setCode 2
      if strict then throw .failed
    | .error e =>
      restore
      throw e

end Run
end Bundler.Shell
