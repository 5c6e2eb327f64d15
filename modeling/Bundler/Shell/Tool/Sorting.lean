import Bundler.Decimal.Spelled
import Bundler.Shell.Pattern
import Bundler.Shell.Tool.Parts
/-!
# Sorting and comparing

The tools that put lines in order, show lines that are the same in a row once, and compare files.
-/

namespace Bundler.Shell

/-! ## Orders -/

/-- By what keys are ordered. -/
inductive SortOrder where
  | text
  | numbers
  | general
  | sizes
  | months
  | versions
  deriving DecidableEq, Repr

/-- How keys are compared. -/
structure SortStyle where
  order : SortOrder
  reverse : Bool
  /-- Small letters count as capital ones. -/
  fold : Bool
  /-- Only blanks, letters and digits count. -/
  dictionary : Bool
  /-- Only characters that are printed count. -/
  printed : Bool
  /-- Blanks at the start of a key do not count. -/
  skipStart : Bool
  /-- Blanks do not count where the end of a key is looked for. -/
  skipEnd : Bool
  deriving DecidableEq, Repr

/-- Text as it is. -/
def SortStyle.usual : SortStyle := ⟨.text, false, false, false, false, false, false⟩

/-- Adds what a letter asks for. -/
def SortStyle.add (s : SortStyle) (atEnd : Bool) : Char → SortStyle
  | 'b' => if atEnd then { s with skipEnd := true } else { s with skipStart := true }
  | 'd' => { s with dictionary := true }
  | 'f' => { s with fold := true }
  | 'g' => { s with order := .general }
  | 'h' => { s with order := .sizes }
  | 'i' => { s with printed := true }
  | 'M' => { s with order := .months }
  | 'n' => { s with order := .numbers }
  | 'r' => { s with reverse := true }
  | 'V' => { s with order := .versions }
  | _ => s

/-- A part of lines by which they are ordered. Fields and characters count from 0 on; a part without
an end goes as far as the line. -/
structure SortKey where
  startField : Nat
  startChar : Nat
  /-- The field in which the part ends, and the number of its characters that belong to it; with 0
  of them the whole field does. -/
  ending : Option (Nat × Nat)
  style : SortStyle

/-- Whether a character is a blank between fields. -/
def isFieldBlank (c : Char) : Bool := c == ' ' || c == '\t' || c == '\n'

/-- Drops a field with the blanks in front of it, or up to a separator; what separates it from the
next one is dropped if that is wanted. -/
def dropField (separator : Option Char) (withSeparator : Bool) (s : Octets) : Octets :=
  match separator with
  | some c =>
    let rest := s.dropWhile (· ≠ c)
    if withSeparator then rest.drop 1 else rest
  | none => (s.dropWhile isFieldBlank).dropWhile (! isFieldBlank ·)

/-- Drops some fields. -/
def dropFields (separator : Option Char) (n : Nat) (s : Octets) : Octets :=
  n.repeat (dropField separator true) s

/-- The part of a line that belongs to a key. -/
def SortKey.part (k : SortKey) (separator : Option Char) (line : Octets) : Octets :=
  let start := dropFields separator k.startField line
  let start := if k.style.skipStart then start.dropWhile isFieldBlank else start
  let start := start.drop k.startChar
  match k.ending with
  | none => start
  | some (field, chars) =>
    let rest :=
      if chars = 0 then dropField separator false (dropFields separator field line)
      else
        let rest := dropFields separator field line
        (if k.style.skipEnd then rest.dropWhile isFieldBlank else rest).drop chars
    start.take (start.length - rest.length)

/-- The number at the start of a text: whether it is negative, its digits in front of the point
without zeros at the start, and those behind it without zeros at the end. -/
def leadingNumber (s : Octets) : Bool × Octets × Octets :=
  let s := s.dropWhile isFieldBlank
  let negative := s.head? == some '-'
  let s := if negative then s.drop 1 else s
  let digits := s.takeWhile Char.isDigit
  let decimals := match s.drop digits.length with
    | '.' :: rest => rest.takeWhile Char.isDigit
    | _ => []
  let whole := digits.dropWhile (· == '0')
  let decimals := (decimals.reverse.dropWhile (· == '0')).reverse
  (negative && ! (whole.isEmpty && decimals.isEmpty), whole, decimals)

/-- The order of two leading numbers. -/
def compareNumbers (a b : Bool × Octets × Octets) : Ordering :=
  let size (x y : Bool × Octets × Octets) : Ordering :=
    ((compare x.2.1.length y.2.1.length).then (Octets.compare x.2.1 y.2.1)).then
      (Octets.compare x.2.2 y.2.2)
  match a.1, b.1 with
  | false, false => size a b
  | true, true => size b a
  | true, false => .lt
  | false, true => .gt

/-- The order of two texts by the numbers at their starts. -/
def compareLeading (a b : Octets) : Ordering := compareNumbers (leadingNumber a) (leadingNumber b)

/-- The place of the unit behind a number, negative for negative numbers. -/
def unitPlace (s : Octets) : Int :=
  let (negative, whole, decimals) := leadingNumber s
  let s := s.dropWhile isFieldBlank
  let s := if s.head? = some '-' then s.drop 1 else s
  let rest := s.drop (s.takeWhile Char.isDigit).length
  let rest := match rest with
    | '.' :: more => more.dropWhile Char.isDigit
    | _ => rest
  if whole.isEmpty && decimals.isEmpty then 0
  else
    let place : Int := match rest with
      | c :: _ =>
        let c := if c == 'k' then 'K' else c
        if unitLetters.contains c then (unitLetters.idxOf c : Int) + 1 else 0
      | [] => 0
    if negative then - place else place

/-- The number of a month by the first letters of its name. -/
def monthPlace (s : Octets) : Nat :=
  let names := ["JAN", "FEB", "MAR", "APR", "MAY", "JUN", "JUL", "AUG", "SEP", "OCT", "NOV", "DEC"]
  let start := ((s.dropWhile isFieldBlank).take 3).map Char.toUpper
  match names.idxOf? (String.ofList start) with
  | some n => n + 1
  | none => 0

/-- The order of the numbers that texts spell. What is no number comes first. -/
def compareGeneral (a b : Octets) : Ordering :=
  let value (s : Octets) : Option Decimal.FloatValue :=
    (Decimal.Spelled.read? (s.dropWhile isSpace)).map (·.value)
  let rank : Option Decimal.FloatValue → Int
    | none => -3
    | some .notANumber => -2
    | some (.infinite true) => -1
    | some (.infinite false) => 1
    | some (.finite ..) => 0
  let signed (minus : Bool) (x : Decimal.Binary) : Int × Nat :=
    let e := x.exponent
    let n : Int := x.mantissa * Nat.pow 2 e.toNat
    (if minus then - n else n, Nat.pow 2 (- e).toNat)
  match value a, value b with
  | some (.finite m x), some (.finite n y) =>
    let (p, q) := signed m x
    let (r, s) := signed n y
    compare (p * s) (r * q)
  | x, y => compare (rank x) (rank y)

/-- Where a character stands in versions: a tilde before the end, digits at the end, letters before
other signs. -/
def versionPlace : Option Char → Int
  | none => -1
  | some c =>
    if c == '~' then -2
    else if c.isDigit then 0
    else if c.isAlpha then c.toNat
    else c.toNat + 256

/-- The order of two versions: parts without digits by their characters, and parts of digits by
their value. The first argument bounds the number of parts. -/
def compareVersions : Nat → Octets → Octets → Ordering
  | 0, _, _ => .eq
  | n + 1, a, b =>
    if a.isEmpty && b.isEmpty then .eq
    else
      let isSign (c : Char) : Bool := ! c.isDigit
      let (x, y) := (a.takeWhile isSign, b.takeWhile isSign)
      let (a, b) := (a.drop x.length, b.drop y.length)
      let place (s rest : Octets) (i : Nat) : Int :=
        match s[i]? with
        | some c => versionPlace (some c)
        | none => if i = s.length && ! rest.isEmpty then 0 else -1
      let signs := (List.range (max x.length y.length)).foldl (fun (o : Ordering) i =>
        o.then (compare (place x a i) (place y b i))) .eq
      let (d, e) := (a.takeWhile Char.isDigit, b.takeWhile Char.isDigit)
      let (a, b) := (a.drop d.length, b.drop e.length)
      let (d, e) := (d.dropWhile (· == '0'), e.dropWhile (· == '0'))
      ((signs.then (compare d.length e.length)).then (Octets.compare d e)).then
        (compareVersions n a b)

/-- The order of two keys. -/
def SortStyle.compare (s : SortStyle) (a b : Octets) : Ordering :=
  let order := match s.order with
    | .numbers => compareLeading a b
    | .general => compareGeneral a b
    | .sizes => (Ord.compare (unitPlace a) (unitPlace b)).then (compareLeading a b)
    | .months => Ord.compare (monthPlace a) (monthPlace b)
    | .versions => compareVersions (a.length + b.length + 1) a b
    | .text =>
      let counts (c : Char) : Bool :=
        (! s.dictionary || c == ' ' || c == '\t' || c.isAlphanum) &&
          (! s.printed || c == ' ' || isGraphic c)
      let seen (t : Octets) : Octets :=
        let kept := if s.dictionary || s.printed then t.filter counts else t
        if s.fold then kept.map Char.toUpper else kept
      Octets.compare (seen a) (seen b)
  if s.reverse then order.swap else order

/-! ## Keys -/

/-- The options of `sort`. -/
def sortOptions : OptionTable :=
  optionTable "bcCdfghik:mMno:rRsS:t:T:uVy:z"
    ["b=ignore-leading-blanks", "d=dictionary-order", "f=ignore-case", "g=general-numeric-sort",
      "i=ignore-nonprinting", "M=month-sort", "h=human-numeric-sort", "n=numeric-sort",
      "R=random-sort", "random-source:", "r=reverse", "sort:", "V=version-sort", "batch-size:",
      "check?", "compress-program:", "debug", "files0-from:", "k=key:", "m=merge", "o=output:",
      "s=stable", "S=buffer-size:", "t=field-separator:", "T=temporary-directory:", "parallel:",
      "u=unique", "z=zero-terminated"]

/-- The letters that say how keys are compared. -/
def styleLetters : List Char := "bdfghiMnRrV".toList

/-- The style that all keys have that say nothing else. -/
def SortStyle.ofArguments (a : Arguments) : SortStyle :=
  let words : List (String × Char) :=
    [("general-numeric", 'g'), ("human-numeric", 'h'), ("month", 'M'), ("numeric", 'n'),
      ("random", 'R'), ("version", 'V')]
  a.options.foldl (fun s o =>
    match o.1.toList with
    | [c] =>
      let s := s.add false c
      if c == 'b' then s.add true c else s
    | _ =>
      if o.1 = "sort" then
        match words.lookup (String.ofList o.2) with
        | some c => s.add false c
        | none => s
      else s) .usual

/-- A place like `2.3` with the letters behind it: a field, a character, and what follows. -/
def readPlace? (s : Octets) : Option (Nat × Option Nat × Octets) :=
  let field := s.takeWhile Char.isDigit
  if field.isEmpty then none
  else
    let rest := s.drop field.length
    match rest with
    | '.' :: more =>
      let char := more.takeWhile Char.isDigit
      if char.isEmpty then none
      else some (Octets.valueOf 10 field, some (Octets.valueOf 10 char), more.drop char.length)
    | _ => some (Octets.valueOf 10 field, none, rest)

/-- The key that a text like `2.3n,4` spells. A key that does not say how it is compared is compared
in a given style. -/
def SortKey.read? (usual : SortStyle) (s : Octets) : Option SortKey := do
  let (field, char, rest) ← readPlace? s
  let letters := rest.takeWhile styleLetters.contains
  let rest := rest.drop letters.length
  let style := letters.foldl (fun s c => s.add false c) .usual
  let (ending, style, plain, rest) ← match rest with
    | ',' :: more => do
      let (field, char, rest) ← readPlace? more
      let ends := rest.takeWhile styleLetters.contains
      let style := ends.foldl (fun s c => s.add true c) style
      if field = 0 then none
      else some (some (field - 1, char.getD 0), style, letters.isEmpty && ends.isEmpty,
        rest.drop ends.length)
    | _ => some (none, style, letters.isEmpty, rest)
  if field = 0 || char = some 0 || ! rest.isEmpty then none
  else some ⟨field - 1, char.getD 1 - 1, ending, if plain then usual else style⟩

/-- The order of two lines by keys; without keys, by the lines as a whole. -/
def compareByKeys (separator : Option Char) (usual : SortStyle) (keys : List SortKey)
    (a b : Octets) : Ordering :=
  match keys with
  | [] =>
    let seen (line : Octets) : Octets :=
      if usual.skipStart then line.dropWhile isFieldBlank else line
    usual.compare (seen a) (seen b)
  | _ => keys.foldl (fun order k =>
      order.then (k.style.compare (k.part separator a) (k.part separator b))) .eq

/-! ## Sorting -/

/-- Drops all but the first of lines in a row that count as the same. -/
def dropSame (same : Octets → Octets → Bool) : List Octets → List Octets
  | [] => []
  | [line] => [line]
  | line :: next :: rest =>
    if same line next then dropSame same (line :: rest) else line :: dropSame same (next :: rest)
termination_by lines => lines.length

/-- The first line that should not stand behind the one before it, with its number. -/
def firstDisorder (wrong : Octets → Octets → Bool) : Nat → List Octets → Option (Nat × Octets)
  | n, line :: next :: rest =>
    if wrong line next then some (n + 1, next) else firstDisorder wrong (n + 1) (next :: rest)
  | _, _ => none

/-- Shows the lines of all inputs in order. -/
def Tool.sort : Tool := fun call =>
  withOptionsOr 2 false sortOptions call fun a => do
    let usual := SortStyle.ofArguments a
    let separator := a.value? "t"
    let keyTexts := (a.options.filter fun o => o.1 = "k").map (·.2)
    let wrongKey := keyTexts.find? fun s => (SortKey.read? usual s).isNone
    let checks := a.hasAny "cC" || a.has "check"
    let single (s : Octets) : Bool := s.length = 1 || s = "\\0".toList
    if let some s := wrongKey then
      let zero := s.head? = some '0' && ! ((s[1]?).any Char.isDigit)
      call.gives 2 ((if zero then "field number is zero: " else "").toList ++
        "invalid field specification ".toList ++ quotedName s)
    else if separator = some [] then call.gives 2 "empty tab".toList
    else if separator.any (! single ·) then
      call.gives 2 ("multi-character tab ".toList ++ quotedName (separator.getD []))
    else if checks && 1 < a.operands.length then
      call.gives 2 ("extra operand ".toList ++ quotedName (a.operands[1]?.getD []) ++
        " not allowed with -c".toList)
    else
      let mark := separator.map fun s => if s.length = 1 then s.headD ' ' else Char.ofNat 0
      let keys := keyTexts.filterMap (SortKey.read? usual)
      let byKeys := compareByKeys mark usual keys
      let order (x y : Octets) : Ordering :=
        if a.hasAny "su" then byKeys x y
        else
          (byKeys x y).then
            (if usual.reverse then (Octets.compare x y).swap else Octets.compare x y)
      let inputs ← a.inputs.mapM fun arg => do return (arg, ← call.read arg)
      let unread := inputs.find? fun
        | (_, .error _) => true
        | _ => false
      match unread with
      | some (arg, .error why) =>
        let isOpen := (← call.status? arg).isSome
        call.gives 2 ((if isOpen then "read failed: " else "cannot read: ").toList ++ arg ++
          ": ".toList ++ why)
      | _ =>
        let lists := inputs.map fun i => (i.2.toOption.map (bareRecords a.recordEnd)).getD []
        if checks then
          let wrong (x y : Octets) : Bool :=
            if a.has "u" then ! (order x y).isLT else (order x y).isGT
          match firstDisorder wrong 1 lists.flatten with
          | none => return 0
          | some (n, line) =>
            let quiet := a.has "C" || (a.value? "check").any fun s =>
              s = "quiet".toList || s = "silent".toList
            if quiet then return 1
            else
              call.gives 1 (a.inputs.headD [] ++ ':' :: Octets.ofNat n ++ ": disorder: ".toList ++
                line)
        else
          let before (x y : Octets) : Bool := (order x y).isLE
          let sorted :=
            if a.has "m" then lists.foldl (fun merged lines => merged.merge lines before) []
            else lists.flatten.mergeSort before
          let kept := if a.has "u" then dropSame (fun x y => byKeys x y = .eq) sorted else sorted
          let text := unrecords a.recordEnd kept
          match a.value? "o" with
          | none =>
            call.put text
            return 0
          | some file =>
            match ← call.writeFile file text with
            | .ok () => return 0
            | .error why => call.gives 2 ("open failed: ".toList ++ file ++ ": ".toList ++ why)

/-! ## Lines that are the same -/

/-- Lines in a row that count as the same. -/
def runsOf (same : Octets → Octets → Bool) (lines : List Octets) : List (List Octets) :=
  lines.foldr (fun line runs =>
    match runs with
    | (next :: run) :: more =>
      if same line next then (line :: next :: run) :: more else [line] :: (next :: run) :: more
    | _ => [[line]]) []

/-- Puts options in the place of arguments like `-2` and `+3`. -/
def spellOutSkips (args : List Octets) : List Octets :=
  args.flatMap fun arg =>
    match arg with
    | '-' :: digits => if (Octets.nat? digits).isSome then ["-f".toList, digits] else [arg]
    | '+' :: digits => if (Octets.nat? digits).isSome then ["-s".toList, digits] else [arg]
    | _ => [arg]

/-- Shows lines that are the same in a row once. -/
def Tool.uniq : Tool := fun call =>
  let table := optionTable "cdDf:is:uw:z"
    ["c=count", "d=repeated", "all-repeated?", "f=skip-fields:", "i=ignore-case",
      "s=skip-chars:", "u=unique", "w=check-chars:", "z=zero-terminated", "group?"]
  withOptions table { call with args := spellOutSkips call.args } fun a => do
    let numbers := ["f", "s", "w"].filterMap fun name => (a.value? name).map fun s => (name, s)
    match numbers.find? fun e => (Octets.nat? e.2).isNone, a.operands[2]? with
    | some (name, s), _ =>
      let what := if name = "f" then "fields to skip"
        else if name = "s" then "bytes to skip" else "bytes to compare"
      call.gives 1 (s ++ (": invalid number of " ++ what).toList)
    | none, some extra => call.refuse ("extra operand ".toList ++ quotedName extra)
    | none, none =>
      let number (name : String) : Option Nat := (a.value? name).bind Octets.nat?
      let key (line : Octets) : Octets :=
        let line := ((number "f").getD 0).repeat (fun s : Octets =>
          (s.dropWhile isFieldBlank).dropWhile (! isFieldBlank ·)) line
        let line := line.drop ((number "s").getD 0)
        let line := match number "w" with
          | some n => line.take n
          | none => line
        if a.has "i" then line.map Char.toUpper else line
      let arg := a.operands.headD ['-']
      match ← call.read arg with
      | .error why =>
        call.blames arg why
        return 1
      | .ok text =>
        let runs := runsOf (fun x y => key x = key y) (bareRecords a.recordEnd text)
        let all := a.has "D" || a.has "all-repeated"
        let isShown (run : List Octets) : Bool :=
          (! (a.has "d" || all) || 1 < run.length) && (! a.has "u" || run.length = 1)
        let shown (run : List Octets) : List Octets :=
          if all || a.has "group" then run
          else
            let line := run.headD []
            [if a.has "c" then column 7 run.length ++ ' ' :: line else line]
        let groups := (runs.filter isShown).map shown
        let way := ((a.value? "all-repeated").orElse fun _ => a.value? "group").getD []
        let lines :=
          if a.has "group" then
            let way := if way.isEmpty then "separate".toList else way
            let inner := (groups.intersperse [[]]).flatten
            let ends (w : String) : Bool := way = w.toList || way = "both".toList
            (if ends "prepend" && ! groups.isEmpty then [[]] else []) ++ inner ++
              (if ends "append" && ! groups.isEmpty then [[]] else [])
          else if way = "separate".toList then (groups.intersperse [[]]).flatten
          else if way = "prepend".toList then groups.flatMap ([] :: ·)
          else groups.flatten
        let text := unrecords a.recordEnd lines
        match a.operands[1]? with
        | none =>
          call.put text
          return 0
        | some file =>
          if file = ['-'] then
            call.put text
            return 0
          else
            match ← call.writeFile file text with
            | .ok () => return 0
            | .error why =>
              call.blames file why
              return 1

/-! ## Comparing -/

/-- The place of the first difference between two texts, from 1 on. -/
def firstDifference : Nat → Octets → Octets → Option Nat
  | n, a :: as, b :: bs => if a = b then firstDifference (n + 1) as bs else some n
  | _, _, _ => none

/-- The differences between two texts, with their places. -/
def differences : Nat → Octets → Octets → List (Nat × Char × Char)
  | n, a :: as, b :: bs =>
    if a = b then differences (n + 1) as bs else (n, a, b) :: differences (n + 1) as bs
  | _, _, _ => []

/-- What is said about texts of which one is the start of the other. -/
def endMessage (x y : Octets) (s t : Octets) (long : Bool) : Octets :=
  let short := if s.length < t.length then x else y
  let text := if s.length < t.length then s else t
  let place :=
    if text.isEmpty then " which is empty".toList
    else
      " after byte ".toList ++ Octets.ofNat text.length ++
        (if long then []
          else if text.getLast? = some '\n' then
            ", line ".toList ++ Octets.ofNat (text.count '\n')
          else ", in line ".toList ++ Octets.ofNat (text.count '\n' + 1))
  "EOF on ".toList ++ short ++ place

/-- Compares two files. -/
def Tool.cmp : Tool := fun call =>
  let table := optionTable "bi:ln:s"
    ["b=print-bytes", "i=ignore-initial:", "l=verbose", "n=bytes:", "s=quiet", "s=silent"]
  withOptionsOr 2 false table call fun a => do
    match a.operands with
    | [] => call.refuseWith 2 "missing operand after 'cmp'".toList
    | x :: more =>
      let y := more.headD ['-']
      let skips := Octets.pieces (· == ':') ((a.value? "i").getD ['0'])
      let skip (n : Nat) : Nat := ((skips[n]?.orElse fun _ => skips.head?).bind amount?).getD 0
      let limit (s : Octets) : Octets :=
        match (a.value? "n").bind amount? with
        | some n => s.take n
        | none => s
      let content (arg : Octets) (skipped : Nat) : Work (Option Octets) := do
        match ← call.read arg with
        | .ok s => return some (limit (s.drop skipped))
        | .error why =>
          call.blames arg why
          return none
      match ← content x (skip 0) with
      | none => return 2
      | some s =>
        match ← content y (skip 1) with
        | none => return 2
        | some t =>
          let ends : Work Nat := do
            if s.length = t.length then return 0
            else
              unless a.has "s" do call.complain (endMessage x y s t (a.has "l"))
              return 1
          if a.has "l" then
            let all := differences 1 s t
            let width := (Octets.ofNat (max s.length t.length)).length
            let octalColumn (c : Char) : Octets :=
              let digits := Nat.toDigits 8 c.toNat
              List.replicate (3 - digits.length) ' ' ++ digits
            unless a.has "s" do
              call.put (Octets.unlines (all.map fun (n, c, d) =>
                column width n ++ ' ' :: octalColumn c ++ ' ' :: octalColumn d))
            let code ← ends
            return if all.isEmpty then code else 1
          else
            match firstDifference 1 s t with
            | some n =>
              let line := ((s.take (n - 1)).count '\n') + 1
              unless a.has "s" do
                call.put (x ++ ' ' :: y ++ " differ: char ".toList ++ Octets.ofNat n ++
                  ", line ".toList ++ Octets.ofNat line ++ ['\n'])
              return 1
            | none => ends

end Bundler.Shell
