import Bundler.Shell.Action
import Bundler.Shell.Fields
/-!
# Expanding words

What the words of a command stand for: home directories, parameters, the output of commands, and the
values of expressions take their places, the result is cut into fields, and fields that are patterns
become the names of files. How a command inside a word is run is a parameter.
-/

namespace Bundler.Shell

/-- How the words around an expansion are used. -/
structure Use where
  /-- The word is cut into fields. -/
  fields : Bool
  /-- The text of the script itself is cut, too. -/
  cutsText : Bool
  /-- Home directories may stand behind colons, as in values of variables. -/
  colons : Bool
  deriving DecidableEq, Repr

/-- A word that is not cut. -/
def Use.text : Use := ⟨false, false, false⟩

/-- The mark of what an expansion gives. -/
def markOf (quoted : Bool) : Mark := if quoted then .quoted else .loose

/-- A text as expanded characters. -/
def atomsOf (mark : Mark) (s : Octets) : List Atom := s.map (.char · mark)

/-- What an expansion gives; it is a region if it is not quoted. -/
def givenAtoms (quoted : Bool) (s : Octets) : List Atom :=
  if quoted then atomsOf .quoted s else .region false :: atomsOf .loose s

/-- The text of an expanded word that is not cut. -/
def plainText (atoms : List Atom) : Octets :=
  atoms.filterMap fun
    | .char c _ => some c
    | _ => none

/-- The text of an expanded word as a pattern: quoted characters get a backslash. -/
def patternText (atoms : List Atom) : Octets :=
  atoms.flatMap fun
    | .char c .quoted => ['\\', c]
    | .char c _ => [c]
    | _ => []

/-- What stands between arguments that are joined: the first separator, or a space if none is
set. -/
def joint : Action Octets := do
  match ← Action.valueOf "IFS" with
  | none => return [' ']
  | some s => return s.take 1

/-- Whether the arguments of the shell stay apart when all of them are expanded. -/
def Use.parts (use : Use) (name : String) (quoted : Bool) : Bool :=
  use.fields && (name = "@" || ! quoted)

/-- All arguments of the shell as one text. -/
def argumentText (use : Use) (name : String) (quoted : Bool) : Action Octets := do
  let joint ← if use.parts name quoted then pure [argumentEnd] else joint
  return Octets.joined joint (← Action.session).arguments

/-- The expansion of all arguments of the shell, which come as one text. -/
def argumentAtoms (use : Use) (name : String) (quoted : Bool) (text : Octets) :
    Action (List Atom) := do
  if use.parts name quoted then
    let atoms := text.map fun c => if c = argumentEnd then .cut else .char c (markOf quoted)
    return if quoted && (← Action.session).arguments.isEmpty then [] else .region quoted :: atoms
  else return givenAtoms quoted text

/-- The message about a parameter that has to be set. -/
def unsetMessage (name : String) (orNull : Bool) : Octets :=
  name.toList ++ ": parameter not set".toList ++ (if orNull then " or null".toList else [])

/-- Drops line breaks at the end. -/
def dropLastBreaks (s : Octets) : Octets := (s.reverse.dropWhile (· == '\n')).reverse

/-! ## Home directories -/

/-- The home directories of users that there are everywhere. -/
def userHomes : List (String × String) :=
  [("root", "/root"), ("daemon", "/usr/sbin"), ("bin", "/bin"), ("sys", "/dev"),
    ("mail", "/var/mail"), ("www-data", "/var/www"), ("nobody", "/nonexistent")]

/-- The home directory of a user; without a name it is the one that the shell was told. -/
def homeOf (user : Octets) : Action (Option Octets) :=
  if user.isEmpty then Action.valueOf "HOME"
  else return (userHomes.lookup (String.ofList user)).map String.toList

/-- Expands a text of the script that begins with a tilde, if what follows is the name of a user.
`ends` says that nothing follows the text. -/
def tildeAtoms (mark : Mark) (ends : Bool) (s : Octets) : Action (List Atom) := do
  let user := (s.drop 1).takeWhile (· ≠ '/')
  let rest := s.drop (user.length + 1)
  if rest.isEmpty && ! ends then return atomsOf mark s
  else
    match ← homeOf user with
    | some home => return atomsOf .quoted home ++ atomsOf mark rest
    | none => return atomsOf mark s

/-- Expands pieces of a text between colons; the first one may not begin with a tilde unless
`starts` says so. -/
def pieceAtoms (mark : Mark) (starts ends : Bool) : List Octets → Action (List Atom)
  | [] => return []
  | piece :: more => do
    let atoms ←
      if starts && piece.head? = some '~' then tildeAtoms mark (ends || ! more.isEmpty) piece
      else pure (atomsOf mark piece)
    if more.isEmpty then return atoms
    else return atoms ++ .char ':' mark :: (← pieceAtoms mark true ends more)

/-- Expands a text of the script that is not quoted. -/
def textAtoms (use : Use) (starts ends : Bool) (s : Octets) : Action (List Atom) := do
  let pieces := if use.colons then Octets.pieces (· == ':') s else [s]
  if use.cutsText then return .region false :: (← pieceAtoms .loose starts ends pieces)
  else pieceAtoms .plain starts ends pieces

/-! ## Parts of words -/

section
variable (output : Command → Action Octets)

mutual

/-- Expands a part of a word. -/
def expandPart (use : Use) : Part → Action (List Atom)
  | .text s quoted => if quoted then return atomsOf .quoted s else textAtoms use false false s
  | .quote => return [.quote]
  | .output command quoted => do
    return givenAtoms quoted (dropLastBreaks (← output command))
  | .value expression quoted => do
    let text := plainText (← expandParts .text false expression)
    return givenAtoms quoted (.ofInt (← Action.compute text))
  | .parameter name form word quoted => do
    let s ← Action.session
    let isList := name = "@" || name = "*"
    let value ←
      if isList then some <$> argumentText use name quoted else Action.parameter name
    let present (ifEmpty : Bool) := value.any fun v => ! (ifEmpty && v.isEmpty)
    let atoms (v : Octets) : Action (List Atom) :=
      if isList then argumentAtoms use name quoted v else return givenAtoms quoted v
    let shown (value : Option Octets) : Action (List Atom) := do
      match value with
      | some v => atoms v
      | none => if s.options.onlySet then Action.fail (unsetMessage name false) else return []
    let inner : Use := { use with cutsText := ! quoted && use.fields }
    match form with
    | .bad => Action.fail "Bad substitution".toList
    | .plain => shown value
    | .length =>
      if isList then
        return givenAtoms quoted (.ofNat (← argumentText .text name quoted).length)
      else
        match value with
        | some v => return givenAtoms quoted (.ofNat v.length)
        | none =>
          if s.options.onlySet then Action.fail (unsetMessage name false)
          else return givenAtoms quoted ['0']
    | .orElse ifEmpty => if present ifEmpty then shown value else expandParts inner true word
    | .instead ifEmpty => if present ifEmpty then expandParts inner true word else return []
    | .assign ifEmpty =>
      if present ifEmpty then shown value
      else do
        let text := plainText (← expandParts .text true word)
        Action.setVariable name text
        shown (some text)
    | .complain ifEmpty =>
      if present ifEmpty then shown value
      else do
        let text := plainText (← expandParts .text true word)
        if word.isEmpty then Action.fail (unsetMessage name ifEmpty)
        else Action.fail (name.toList ++ ": ".toList ++ text)
    | .trim cut =>
      match value with
      | none =>
        if s.options.onlySet && ! isList then Action.fail (unsetMessage name false) else return []
      | some v => do
        let pattern := readPattern (patternText (← expandParts .text true word))
        atoms (cut.apply pattern v)

/-- Expands a word, or the rest of one that has started before. All arguments of the shell between
quotes make no field if there are none. -/
def expandParts (use : Use) : (starts : Bool) → List Part → Action (List Atom)
  | _, [] => return []
  | starts, .text s false :: rest => do
    let atoms ← textAtoms use starts rest.isEmpty s
    return atoms ++ (← expandParts use false rest)
  | _, .quote :: .parameter "@" .plain [] true :: .quote :: rest => do
    let atoms ← argumentAtoms use "@" true (← argumentText use "@" true)
    return atoms ++ (← expandParts use false rest)
  | _, part :: rest => do
    let atoms ← expandPart use part
    return atoms ++ (← expandParts use false rest)

end
end

/-! ## Names of files -/

/-- A field as the text of a pattern: what is no sign has a backslash in front. -/
def fieldPattern (field : List FieldChar) : Octets :=
  field.flatMap fun (c, active) => if active then [c] else ['\\', c]

/-- The pieces of the text of a pattern between slashes. -/
def slashPieces : Octets → List Octets
  | [] => [[]]
  | '\\' :: '/' :: rest => [] :: slashPieces rest
  | '\\' :: c :: rest => (slashPieces rest).modifyHead ('\\' :: c :: ·)
  | c :: rest =>
    if c == '/' then [] :: slashPieces rest else (slashPieces rest).modifyHead (c :: ·)

/-- Whether a bracket is closed that was opened, with a character at least inside. -/
def closesBracket : Octets → Bool
  | [] => false
  | ['\\'] => false
  | '\\' :: _ :: rest => rest.head? = some ']' || closesBracket rest
  | _ :: rest => rest.head? = some ']' || closesBracket rest

/-- Whether the text of a pattern has a sign. -/
def hasSigns : Octets → Bool
  | [] => false
  | '\\' :: _ :: rest => hasSigns rest
  | c :: rest =>
    c == '*' || c == '?' ||
      (c == '[' && closesBracket (if rest.head? = some '!' then rest.drop 1 else rest)) ||
      hasSigns rest

/-- What the text of a pattern without signs spells. -/
def plainPiece : Octets → Octets
  | [] => []
  | '\\' :: c :: rest => c :: plainPiece rest
  | c :: rest => c :: plainPiece rest

/-- The names in a directory, in order. -/
def namesIn (t : FileTree) (p : Path) : List String :=
  match t.locate p with
  | .error _ => []
  | .ok l =>
    ((t.below l).filterMap fun e =>
      match e.1 with
      | [name] => some name
      | _ => none)

/-- The names that pieces of a path stand for, behind what was found of the path. -/
def matchPieces (w : World) (directory : Path) : Octets → List Octets → List Octets
  | found, [] => [found]
  | found, piece :: rest =>
    let slash : Octets := if rest.isEmpty then [] else ['/']
    if hasSigns piece then
      let pattern := readPattern piece
      let inside := pathOf directory (if found.isEmpty then ['.'] else found)
      let names := (".".toList :: "..".toList :: (namesIn w.tree inside).map Octets.ofText)
      let names := names.filter fun name =>
        matchesAll pattern name && (name.head? ≠ some '.' || pattern.head? = some (.char '.'))
      let names := (names.mergeSort fun a b => (Octets.compare a b).isLE)
      names.flatMap fun name =>
        let next := found ++ name
        if rest.isEmpty then [next]
        else if w.tree.isDirectory (pathOf directory next) then
          matchPieces w directory (next ++ slash) rest
        else []
    else
      let next := found ++ plainPiece piece
      if rest.isEmpty then
        if w.tree.contains (pathOf directory next) then [next] else []
      else matchPieces w directory (next ++ slash) rest

/-- The names of files that a field stands for, or its text if there are none. -/
def fileNames (w : World) (directory : Path) (field : List FieldChar) : List Octets :=
  let pieces := slashPieces (fieldPattern field)
  if pieces.any hasSigns then
    match matchPieces w directory [] pieces with
    | [] => [fieldText field]
    | names => names.mergeSort fun a b => (Octets.compare a b).isLE
  else [fieldText field]

/-! ## Whole words -/

section
variable (output : Command → Action Octets)

/-- The fields that a word stands for. -/
def expandFields (w : Word) : Action (List Octets) := do
  let atoms ← expandParts output ⟨true, false, false⟩ true w
  let fields := cutFields none (← Action.separators) atoms
  let m ← get
  if m.session.options.noPatterns then return fields.map fieldText
  else return fields.flatMap (fileNames m.world m.session.directory)

/-- The text that a word stands for, which is not cut. -/
def expandText (w : Word) : Action Octets := do
  return plainText (← expandParts output .text true w)

/-- The text that a word stands for as the value of a variable. -/
def expandValue (w : Word) : Action Octets := do
  return plainText (← expandParts output ⟨false, false, true⟩ true w)

/-- The pattern that a word stands for. -/
def expandPattern (w : Word) : Action (List PatternPart) := do
  return readPattern (patternText (← expandParts output .text true w))

end
end Bundler.Shell
