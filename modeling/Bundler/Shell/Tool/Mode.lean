import Bundler.Shell.Octets
/-!
# Permission bits

Permission bits as numbers, as the letters in which they are shown, and as the changes that texts
like `u=rw,go-w` ask for.
-/

namespace Bundler.Shell

/-- A change of permission bits. -/
structure ModeChange where
  /-- The classes of users, each as its three bits; none are given if there is nothing. -/
  classes : Nat
  op : Char
  rights : Octets
  deriving DecidableEq, Repr

namespace ModeChange

/-- The bits of a class of users. -/
def classOf : Char → Nat
  | 'u' => 0o4700
  | 'g' => 0o2070
  | 'o' => 0o1007
  | _ => 0o7777

/-- Repeats three bits for all classes of users. -/
def forAllClasses (bits : Nat) : Nat := bits * 0o111

/-- The bits that the letter of a right stands for, seen from bits that there are. -/
def bitsOf (isDirectory : Bool) (bits : Nat) : Char → Nat
  | 'r' => forAllClasses 4
  | 'w' => forAllClasses 2
  | 'x' => forAllClasses 1
  | 'X' => if isDirectory || bits &&& 0o111 ≠ 0 then forAllClasses 1 else 0
  | 's' => 0o6000
  | 't' => 0o1000
  | 'u' => forAllClasses (bits / 64 % 8)
  | 'g' => forAllClasses (bits / 8 % 8)
  | 'o' => forAllClasses (bits % 8)
  | _ => 0

/-- The bits without some of them. -/
def without (bits gone : Nat) : Nat := bits - (bits &&& gone)

/-- Makes a change. Where no class of users is given, the bits of a mask are left alone. -/
def apply (c : ModeChange) (isDirectory : Bool) (mask bits : Nat) : Nat :=
  let wanted := c.rights.foldl (fun n r => n ||| bitsOf isDirectory bits r) 0
  let reach := if c.classes = 0 then without 0o7777 mask else c.classes
  let chosen := wanted &&& reach
  match c.op with
  | '+' => bits ||| chosen
  | '-' => without bits chosen
  | _ =>
    let cleared := if c.classes = 0 then 0o7777 else c.classes
    let kept := if isDirectory then 0o6000 else 0
    without bits (without cleared kept) ||| chosen

/-- Reads the changes for one list of classes. The first argument bounds their number. -/
def readFor (classes : Nat) : Nat → Octets → Option (List ModeChange)
  | 0, _ => none
  | _ + 1, [] => some []
  | n + 1, op :: rest =>
    if ! "+-=".toList.contains op then none
    else
      let rights := match rest with
        | c :: _ => if "ugo".toList.contains c then [c]
          else rest.takeWhile ("rwxXst".toList.contains ·)
        | [] => []
      (readFor classes n (rest.drop rights.length)).map (⟨classes, op, rights⟩ :: ·)

/-- Reads the changes that a text with letters asks for. -/
def readLetters? (s : Octets) : Option (List ModeChange) :=
  ((Octets.pieces (· == ',') s).mapM fun (piece : Octets) =>
    let letters := piece.takeWhile ("ugoa".toList.contains ·)
    let changes := piece.drop letters.length
    if changes.isEmpty then none
    else
      readFor (letters.foldl (fun n c => n ||| classOf c) 0) (changes.length + 1) changes).map
        List.flatten

/-- Reads the changes that a text asks for: new bits in base eight, or changes in letters. -/
def read? (s : Octets) : Option (List ModeChange ⊕ Nat) :=
  if s ≠ [] && s.all (Octets.isDigitOf 8) then
    let n := Octets.valueOf 8 s
    if n ≤ 0o7777 then some (.inr n) else none
  else (readLetters? s).map .inl

/-- The bits after changes. -/
def applyAll (changes : List ModeChange ⊕ Nat) (isDirectory : Bool) (mask bits : Nat) : Nat :=
  match changes with
  | .inr n => n
  | .inl changes => changes.foldl (fun bits c => c.apply isDirectory mask bits) bits

end ModeChange

/-- Permission bits in letters, like `rw-r--r--`. -/
def shownMode (bits : Nat) : Octets :=
  let one (shift special : Nat) (marked plain : Char) : Octets :=
    let b := bits / shift % 8
    let last :=
      if bits &&& special ≠ 0 then (if b &&& 1 ≠ 0 then marked else plain)
      else if b &&& 1 ≠ 0 then 'x' else '-'
    [if b &&& 4 ≠ 0 then 'r' else '-', if b &&& 2 ≠ 0 then 'w' else '-', last]
  one 64 0o4000 's' 'S' ++ one 8 0o2000 's' 'S' ++ one 1 0o1000 't' 'T'

/-- Permission bits as four digits in base eight, and in letters. -/
def describedMode (bits : Nat) : Octets :=
  let digits := Nat.toDigits 8 bits
  List.replicate (4 - digits.length) '0' ++ digits ++ " (".toList ++ shownMode bits ++ [')']

end Bundler.Shell
