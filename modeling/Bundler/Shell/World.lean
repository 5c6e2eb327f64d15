import Bundler.Shell.Session
/-!
# Files, streams and processes

What processes act on: a file tree, the channels that their streams are connected to, and the table
of the processes themselves. A channel that was opened for a file remembers a position in it, and
all streams that are connected to it share the position. A file that is open can lose its names and
is still there for those who opened it. A pipe has readers and writers as long as a process keeps
one of its ends.
-/

namespace Bundler.Shell

/-! ## Channels -/

/-- A file that belongs to the system and keeps nothing. -/
inductive Device where
  /-- Always empty; what is written is dropped. -/
  | null
  /-- Endless zero bytes. -/
  | zero
  /-- Like `zero`, but there is no room for writing. -/
  | full
  deriving DecidableEq, Repr

/-- Where the content of an open file is. -/
inductive OpenFile where
  | named (l : Location)
  /-- The file has lost all its names. -/
  | nameless (n : Nat)
  deriving DecidableEq, Repr

/-- What a stream is connected to. -/
inductive Channel where
  | device (d : Device)
  | file (file : OpenFile) (position : Nat) (reads writes append : Bool)
  /-- An open directory, which cannot be read. -/
  | directory (l : Location)
  | pipe (n : Nat) (writes : Bool)
  deriving DecidableEq, Repr

/-- Why a stream could not be used. -/
inductive Fault where
  | closed
  | directory
  | noRoom
  | noReader
  deriving DecidableEq, Repr

/-- The wording of the system for a fault. -/
def Fault.reason : Fault → Octets
  | .closed => "Bad file descriptor".toList
  | .directory => "Is a directory".toList
  | .noRoom => "No space left on device".toList
  | .noReader => "Broken pipe".toList

/-- What was written to a pipe and not read: the start of it, and later pieces, the latest first. -/
structure Pipe where
  front : Octets
  back : List Octets
  size : Nat
  deriving DecidableEq, Repr

/-- How much a pipe holds at most. -/
def Pipe.capacity : Nat := 65536

/-- Writes to a pipe. -/
def Pipe.add (p : Pipe) (text : Octets) : Pipe :=
  { p with back := text :: p.back, size := p.size + text.length }

/-- Takes at most a number of characters out of a pipe. -/
def Pipe.take (p : Pipe) (count : Nat) : Octets × Pipe :=
  let front := if p.back.isEmpty then p.front else p.front ++ p.back.reverse.flatten
  (front.take count, ⟨front.drop count, [], p.size - min count p.size⟩)

/-! ## Processes -/

/-- The streams and signals of a process, and how it ended. -/
structure Process where
  parent : Nat
  /-- The channels of its streams. -/
  streams : List (Nat × Nat)
  /-- Other channels that it keeps open. -/
  held : List Nat
  /-- Signals that do nothing to it. -/
  ignored : List Nat
  /-- Signals that it looks at itself. -/
  handled : List Nat
  /-- Signals that came and were not looked at. -/
  pending : List Nat
  stopped : Bool
  ending : Option ExitStatus
  deriving DecidableEq, Repr

/-- Signals that do nothing unless something is to be done on them: 17, 18, 23 and 28. -/
def quietSignals : List Nat := [17, 18, 23, 28]

/-- Signals that stop a process unless something is to be done on them. -/
def stopSignals : List Nat := [19, 20, 21, 22]

/-- The signal that ends a process, among those that came. -/
def Process.fatal? (p : Process) : Option Nat :=
  p.pending.find? fun n => n = 9 || ! (p.handled.contains n || stopSignals.contains n)

/-- A program that is to be run: the path of its file, and its name, arguments and variables. -/
structure Program where
  path : Octets
  name : Octets
  args : List Octets
  environment : List (String × Octets)
  deriving DecidableEq, Repr

/-- What a new process has to do. -/
inductive Errand where
  /-- It goes on as a copy of a shell that runs a command and ends. -/
  | command (place : Place) (command : Command)
  | program (program : Program)

/-- A process that is to begin: its shell and what it has to do. -/
structure Start where
  process : Nat
  session : Session
  errand : Errand

/-- All that processes share. -/
structure World where
  tree : FileTree
  /-- When entries were changed last, in millionths of a second. -/
  times : List (Location × Int)
  channels : Array Channel
  pipes : Array Pipe
  /-- Files without a name that are still open. -/
  nameless : Array Bytes
  /-- The processes by number, in the order in which they began. -/
  processes : List (Nat × Process)
  /-- The number of the next process. -/
  next : Nat
  /-- Processes that are to begin. -/
  starts : List Start
  /-- How long the world has been going on, in millionths of a second. -/
  now : Nat

/-- The wording of the system for a failure. -/
def reason : IoError → String
  | .notFound => "No such file or directory"
  | .permissionDenied => "Permission denied"
  | .alreadyExists => "File exists"
  | .notADirectory => "Not a directory"
  | .isADirectory => "Is a directory"
  | .nameTooLong => "File name too long"
  | .nulInPath => "Invalid argument"
  | .nulInArgument => "Invalid argument"
  | .notARegularFile => "Invalid argument"
  | .notAProgram => "Exec format error"

/-- The path of an argument, seen from the working directory. -/
def pathOf (directory : Path) (arg : Octets) : Path :=
  if arg.isEmpty then ⟨""⟩ else directory.join ⟨arg.text⟩

/-! ## Special paths -/

/-- What a path of the system stands for. -/
inductive Special where
  | device (d : Device)
  /-- A stream of the process that uses the path. -/
  | stream (n : Nat)
  deriving DecidableEq, Repr

/-- The devices by path. -/
def devices : List (String × Device) :=
  [("/dev/null", .null), ("/dev/zero", .zero), ("/dev/full", .full), ("/dev/random", .zero),
    ("/dev/urandom", .zero)]

/-- What a path spells, if it is special. -/
def special? (p : Path) : Option Special :=
  let text := p.normalize.text
  match devices.lookup text with
  | some d => some (.device d)
  | none =>
    if text = "/dev/stdin" then some (.stream 0)
    else if text = "/dev/stdout" then some (.stream 1)
    else if text = "/dev/stderr" then some (.stream 2)
    else
      let start := ["/dev/fd/", "/proc/self/fd/"].find? fun s => s.toList.isPrefixOf text.toList
      start.bind fun s => (Octets.nat? (text.toList.drop s.length)).map .stream

/-- What kind of thing is at a path. -/
inductive Kind where
  | file
  | directory
  | device
  | pipe
  deriving DecidableEq, Repr

/-- What can be asked about something at a path. -/
structure Status where
  kind : Kind
  mode : Nat
  size : Nat
  /-- When it was changed last, in millionths of a second. -/
  time : Int
  location : Option Location
  deriving DecidableEq, Repr

/-- Whether a path spells a device. -/
def isDevice (p : Path) : Bool :=
  match special? p with
  | some (.device _) => true
  | _ => false

namespace World

/-! ## Processes -/

/-- The process with a number, if there was one and nobody was told of its end. -/
def process? (w : World) (n : Nat) : Option Process := w.processes.lookup n

/-- Changes a process. -/
def updateProcess (w : World) (n : Nat) (f : Process → Process) : World :=
  { w with processes := w.processes.map fun (m, p) => (m, if m = n then f p else p) }

/-- Takes an ended process off the table. -/
def forgetProcess (w : World) (n : Nat) : World :=
  { w with processes := w.processes.filter fun e => e.1 ≠ n }

/-- Ends a process: it keeps no channel any more. -/
def finish (w : World) (n : Nat) (ending : ExitStatus) : World :=
  w.updateProcess n fun p => { p with streams := [], held := [], ending := some ending }

/-- The first child of a process that has ended. -/
def endedChild? (w : World) (n : Nat) : Option (Nat × ExitStatus) :=
  w.processes.findSome? fun (m, p) =>
    if p.parent = n then p.ending.map fun e => (m, e) else none

/-- Whether a process has children, ended ones included. -/
def hasChildren (w : World) (n : Nat) : Bool := w.processes.any fun e => e.2.parent = n

/-- Whether a signal came that a process looks at itself. -/
def hasSignals (w : World) (n : Nat) : Bool := (w.process? n).any fun p => ! p.pending.isEmpty

/-! ## Channels -/

/-- Adds a channel; its number is given back. -/
def connect (w : World) (c : Channel) : World × Nat :=
  ({ w with channels := w.channels.push c }, w.channels.size)

/-- The channel with a number. -/
def channel (w : World) (n : Nat) : Channel := w.channels[n]?.getD (.device .null)

/-- Puts another channel in the place of one. -/
def setChannel (w : World) (n : Nat) (c : Channel) : World :=
  { w with channels := w.channels.set! n c }

/-- Makes a pipe; the numbers of its two ends are given back, the one to read from first. -/
def makePipe (w : World) : World × Nat × Nat :=
  let n := w.pipes.size
  let (w, reading) := { w with pipes := w.pipes.push ⟨[], [], 0⟩ }.connect (.pipe n false)
  let (w, writing) := w.connect (.pipe n true)
  (w, reading, writing)

/-- The pipe with a number. -/
def pipe (w : World) (n : Nat) : Pipe := w.pipes[n]?.getD ⟨[], [], 0⟩

/-- Puts another content into a pipe. -/
def setPipe (w : World) (n : Nat) (p : Pipe) : World := { w with pipes := w.pipes.set! n p }

/-- Whether some process keeps a channel. -/
def keeps (w : World) (c : Channel) : Bool :=
  w.processes.any fun (_, p) =>
    p.streams.any (fun e => w.channel e.2 == c) || p.held.any fun n => w.channel n == c

/-! ## Files -/

/-- The time by the clock of the system when the world begins, in millionths of a second. -/
def beginning : Int := 1750000000000000

/-- The time by the clock of the system. -/
def clock (w : World) : Int := beginning + w.now

/-- Notes when an entry was changed. -/
def stamp (w : World) (l : Location) (time : Int) : World :=
  { w with times := (l, time) :: w.times.filter fun e => e.1 ≠ l }

/-- When an entry was changed last. -/
def timeOf (w : World) (l : Location) : Int :=
  ((w.tree.names l).findSome? fun m => w.times.lookup m).getD (beginning - 1000000)

/-- Puts content into a file that is there. -/
def fill (w : World) (l : Location) (content : Bytes) : World :=
  { w with tree := w.tree.put l (.file content) }.stamp l w.clock

/-- The content of an open file. -/
def contentOf (w : World) : OpenFile → Bytes
  | .named l =>
    match w.tree.node? l with
    | some (.file content) => content
    | _ => []
  | .nameless n => w.nameless[n]?.getD []

/-- Puts content into an open file. -/
def setContent (w : World) (file : OpenFile) (content : Bytes) : World :=
  match file with
  | .named l => w.fill l content
  | .nameless n => { w with nameless := w.nameless.set! n content }

/-- Sets the permission bits of an entry. -/
def setMode (w : World) (l : Location) (bits : Nat) : World :=
  if w.tree.mode l = bits then w else { w with tree := w.tree.setMode l bits }

/-- Writes a whole file. A new one gets permission bits without those of a mask. -/
def writeFile (w : World) (p : Path) (content : Bytes) (bits mask : Nat) : Except IoError World :=
  let isNew := ! w.tree.contains p
  match w.tree.write p content with
  | .error e => .error e
  | .ok tree =>
    let w := { w with tree }
    match tree.locate p with
    | .error e => .error e
    | .ok l =>
      let w := w.stamp l w.clock
      .ok (if isNew then w.setMode l (bits &&& (0o777 - mask % 0o1000)) else w)

/-- Makes a directory; it gets permission bits without those of a mask. -/
def makeDirectory (w : World) (p : Path) (bits mask : Nat) : Except IoError World :=
  match w.tree.makeDirectory p with
  | .error e => .error e
  | .ok tree =>
    let w := { w with tree }
    match tree.locate p with
    | .error e => .error e
    | .ok l => .ok ((w.stamp l w.clock).setMode l (bits &&& (0o777 - mask % 0o1000)))

/-- Makes open files go on where entries are taken away: under another name of the file, or without
a name. -/
def detach (w : World) (gone : Location → Bool) : World :=
  let step (acc : World × List (List Location × Nat)) (n : Nat) :
      World × List (List Location × Nat) :=
    let (w, seen) := acc
    match w.channel n with
    | .file (.named l) position reads writes append =>
      if ! gone l then acc
      else
        let names := w.tree.names l
        let set (file : OpenFile) := w.setChannel n (.file file position reads writes append)
        match names.find? (! gone ·) with
        | some m => (set (.named m), seen)
        | none =>
          match seen.lookup names with
          | some k => (set (.nameless k), seen)
          | none =>
            let k := w.nameless.size
            ({ set (.nameless k) with nameless := w.nameless.push (w.contentOf (.named l)) },
              (names, k) :: seen)
    | _ => acc
  ((List.range w.channels.size).foldl step (w, [])).1

/-- Takes entries away. -/
def remove (w : World) (gone : Location → Bool) : World :=
  let w := w.detach gone
  { w with
    tree := w.tree.reindex fun l => if gone l then none else some l
    times := w.times.filter fun e => ! gone e.1 }

/-- Moves an entry, with all that is below it, in the place of what is at another location. -/
def relocate (w : World) (l m : Location) : World :=
  let w := w.remove fun k => m.isPrefixOf k
  let moved (k : Location) : Location := if l.isPrefixOf k then m ++ k.drop l.length else k
  let channels := w.channels.map fun
    | .file (.named k) position reads writes append =>
      .file (.named (moved k)) position reads writes append
    | c => c
  { w with
    tree := w.tree.relocate l m, channels
    times := w.times.map fun e => (moved e.1, e.2) }

/-! ## Looking -/

/-- What is at a path, seen from a process with some streams. -/
def status? (w : World) (streams : List (Nat × Nat)) (p : Path) : Option Status :=
  let atLocation (l : Location) : Option Status :=
    match w.tree.node? l with
    | some .directory => some ⟨.directory, w.tree.mode l, 4096, w.timeOf l, some l⟩
    | some (.file content) => some ⟨.file, w.tree.mode l, content.length, w.timeOf l, some l⟩
    | none => none
  match special? p with
  | some (.device _) => some ⟨.device, 0o666, 0, beginning, none⟩
  | some (.stream n) =>
    match (streams.lookup n).map w.channel with
    | none => none
    | some (.device _) => some ⟨.device, 0o666, 0, beginning, none⟩
    | some (.file (.named l) ..) => atLocation l
    | some (.file (.nameless k) ..) =>
      some ⟨.file, 0o644, (w.contentOf (.nameless k)).length, beginning, none⟩
    | some (.directory l) => atLocation l
    | some (.pipe ..) => some ⟨.pipe, 0o600, 0, beginning, none⟩
  | none => (w.tree.locate p).toOption.bind atLocation

/-! ## Opening files -/

/-- A channel to an entry that is there. -/
def channelTo (w : World) (p : Path) (reads writes append : Bool) : Except IoError Channel :=
  match w.tree.locate p with
  | .error e => .error e
  | .ok l =>
    if w.tree.node? l = some .directory then .ok (.directory l)
    else .ok (.file (.named l) 0 reads writes append)

/-- Opens what is behind a stream once more. -/
def reopen (w : World) (c : Channel) (mode : OpenMode) : World × Channel :=
  let reads := mode = .read || mode = .both
  let writes := mode ≠ .read
  match c with
  | .file file _ _ _ _ =>
    let w := if mode = .write || mode = .overwrite then w.setContent file [] else w
    (w, .file file 0 reads writes (mode = .append))
  | .pipe n _ => (w, .pipe n (writes && ! reads))
  | c => (w, c)

/-- Opens a file. A file that is written is made if it is not there, and `write` empties it. -/
def openFile (w : World) (streams : List (Nat × Nat)) (p : Path) (mode : OpenMode) (mask : Nat) :
    Except IoError (World × Channel) :=
  match special? p with
  | some (.device d) => .ok (w, .device d)
  | some (.stream n) =>
    match streams.lookup n with
    | some c => .ok (w.reopen (w.channel c) mode)
    | none => .error .notFound
  | none =>
    let make (w : World) : Except IoError World :=
      match w.tree.at? p with
      | some .directory => .error .isADirectory
      | some (.file _) => .ok w
      | none => w.writeFile p [] 0o666 mask
    match mode with
    | .read => (w.channelTo p true false false).map fun c => (w, c)
    | .append => do
      let w ← make w
      return (w, ← w.channelTo p false true true)
    | .both => do
      let w ← make w
      return (w, ← w.channelTo p true true false)
    | _ => do
      let w ← w.writeFile p [] 0o666 mask
      return (w, ← w.channelTo p false true false)

/-! ## Reading and writing -/

/-- Takes what can be read from a channel now, at most a number of characters. Nothing means that
there is nothing yet, and an empty text that there is nothing more. -/
def read (w : World) (n count : Nat) : Except Fault (Option Octets × World) :=
  match w.channel n with
  | .device .null => .ok (some [], w)
  | .device _ => .ok (some (List.replicate count (Char.ofNat 0)), w)
  | .directory _ => .error .directory
  | .file file position reads writes append =>
    if ! reads then .error .closed
    else
      let text := Octets.ofBytes (((w.contentOf file).drop position).take count)
      .ok (some text, w.setChannel n (.file file (position + text.length) reads writes append))
  | .pipe k false =>
    let pipe := w.pipe k
    if 0 < pipe.size then
      let (text, pipe) := pipe.take count
      .ok (some text, w.setPipe k pipe)
    else if w.keeps (.pipe k true) then .ok (none, w)
    else .ok (some [], w)
  | .pipe _ true => .error .closed

/-- Gives back characters that were taken out of a channel last. -/
def unread (w : World) (n : Nat) (text : Octets) : World :=
  match w.channel n with
  | .file file position reads writes append =>
    w.setChannel n (.file file (position - text.length) reads writes append)
  | .pipe k false =>
    let pipe := w.pipe k
    w.setPipe k { pipe with front := text ++ pipe.front, size := pipe.size + text.length }
  | _ => w

/-- Writes as much as can be written to a channel now, and gives back what is left. -/
def write (w : World) (n : Nat) (text : Octets) : Except Fault (Octets × World) :=
  match w.channel n with
  | .device .full => if text.isEmpty then .ok ([], w) else .error .noRoom
  | .device _ => .ok ([], w)
  | .directory _ => .error .closed
  | .file file position reads writes append =>
    if ! writes then .error .closed
    else if text.isEmpty then .ok ([], w)
    else
      let content := w.contentOf file
      let size := content.length
      let start := if append then size else position
      let after := start + text.length
      let filled :=
        if start = size then content ++ text.toBytes
        else
          content.take start ++ List.replicate (start - size) 0 ++ text.toBytes ++
            content.drop after
      .ok ([], (w.setContent file filled).setChannel n (.file file after reads writes append))
  | .pipe k true =>
    if ! w.keeps (.pipe k false) then .error .noReader
    else
      let pipe := w.pipe k
      let room := Pipe.capacity - pipe.size
      let now := text.take room
      .ok (text.drop room, if now.isEmpty then w else w.setPipe k (pipe.add now))
  | .pipe _ false => .error .closed

/-- Whether reading from a channel need not wait. -/
def canRead (w : World) (n : Nat) : Bool :=
  match w.channel n with
  | .pipe k false => 0 < (w.pipe k).size || ! w.keeps (.pipe k true)
  | _ => true

/-- Whether writing to a channel need not wait. -/
def canWrite (w : World) (n : Nat) : Bool :=
  match w.channel n with
  | .pipe k true => (w.pipe k).size < Pipe.capacity || ! w.keeps (.pipe k false)
  | _ => true

/-! ## Signals -/

/-- Sends a signal to a process. What it does to the process is seen when that goes on. -/
def send (w : World) (n signal : Nat) : World :=
  w.updateProcess n fun p =>
    if signal = 0 || p.ending.isSome then p
    else
      let p := if signal = 18 then { p with stopped := false } else p
      if (p.ignored.contains signal && signal ≠ 9 && signal ≠ 19) ||
          (quietSignals.contains signal && ! p.handled.contains signal) ||
          p.pending.contains signal then p
      else { p with pending := p.pending ++ [signal] }

/-- Lets the signals that came do to a process what they do without its help. -/
def settle (w : World) (n : Nat) : World :=
  match w.process? n with
  | none => w
  | some p =>
    if p.pending.isEmpty then w
    else
      match Process.fatal? p with
      | some signal => w.finish n (.signal signal)
      | none =>
        let stops (s : Nat) : Bool := s = 19 || (stopSignals.contains s && ! p.handled.contains s)
        if p.pending.any stops then
          w.updateProcess n fun p =>
            { p with stopped := true, pending := p.pending.filter (! stops ·) }
        else w

end World
end Bundler.Shell
