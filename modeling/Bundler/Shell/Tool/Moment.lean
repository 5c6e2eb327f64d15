import Bundler.Shell.Octets
/-!
# Points in time

Days and seconds since the start of 1970, in the calendar and in the forms in which tools read and
write them.
-/

namespace Bundler.Shell

/-- A point in time by the calendar. -/
structure Moment where
  year : Nat
  month : Nat
  day : Nat
  hour : Nat
  minute : Nat
  second : Nat
  deriving DecidableEq, Repr

namespace Moment

/-- Whether a year has a day more. -/
def isLeap (year : Nat) : Bool := year % 4 = 0 && (year % 100 ≠ 0 || year % 400 = 0)

/-- How many days a month has. -/
def daysIn (year month : Nat) : Nat :=
  match month with
  | 2 => if isLeap year then 29 else 28
  | 4 => 30
  | 6 => 30
  | 9 => 30
  | 11 => 30
  | _ => 31

/-- Whether there is such a point in time. -/
def isValid (m : Moment) : Bool :=
  1 ≤ m.month && m.month ≤ 12 && 1 ≤ m.day && m.day ≤ daysIn m.year m.month && m.hour < 24 &&
    m.minute < 60 && m.second ≤ 60

/-- The number of days from the start of year 0 to a day. Years begin in March here, so that the day
more of a leap year is the last one. -/
def dayNumber (m : Moment) : Nat :=
  let year := if m.month ≤ 2 then m.year - 1 else m.year
  let month := (m.month + 9) % 12
  365 * year + year / 4 - year / 100 + year / 400 + (153 * month + 2) / 5 + m.day - 1

/-- The first day of 1970. -/
def firstDay : Nat := dayNumber ⟨1970, 1, 1, 0, 0, 0⟩

/-- The seconds from the start of 1970 on. -/
def seconds (m : Moment) : Int :=
  ((m.dayNumber : Int) - firstDay) * 86400 + (m.hour * 3600 + m.minute * 60 + m.second : Nat)

/-- The day with a number. -/
def ofDayNumber (n : Nat) : Moment :=
  let era := n / 146097
  let day := n % 146097
  let year := (day - day / 1460 + day / 36524 - day / 146096) / 365
  let rest := day - (365 * year + year / 4 - year / 100)
  let month := (5 * rest + 2) / 153
  let first := (153 * month + 2) / 5
  let realMonth := if month < 10 then month + 3 else month - 9
  ⟨era * 400 + year + (if realMonth ≤ 2 then 1 else 0), realMonth, rest - first + 1, 0, 0, 0⟩

/-- The point in time at some seconds from the start of 1970 on. -/
def ofSeconds (n : Int) : Moment :=
  let day := ofDayNumber (n / 86400 + firstDay).toNat
  let rest := (n % 86400).toNat
  { day with hour := rest / 3600, minute := rest / 60 % 60, second := rest % 60 }

/-- A number of digits in front of a text. -/
def digits? (count : Nat) (s : Octets) : Option (Nat × Octets) :=
  let start := s.take count
  if start.length = count then (Octets.nat? start).map fun n => (n, s.drop count) else none

/-- Reads a form like `2024-01-31 12:30:59`, with or without the time of the day. -/
def read? (s : Octets) : Option Moment := do
  let (year, s) ← digits? 4 s
  let s ← if s.head? = some '-' then some (s.drop 1) else none
  let (month, s) ← digits? 2 s
  let s ← if s.head? = some '-' then some (s.drop 1) else none
  let (day, s) ← digits? 2 s
  let midnight : Moment := ⟨year, month, day, 0, 0, 0⟩
  let m ← if s.isEmpty then some midnight
    else do
      let s ← if s.head?.any fun c => c == ' ' || c == 'T' then some (s.drop 1) else none
      let (hour, s) ← digits? 2 s
      let s ← if s.head? = some ':' then some (s.drop 1) else none
      let (minute, s) ← digits? 2 s
      let (second, s) ← if s.head? = some ':' then digits? 2 (s.drop 1) else some (0, s)
      if s.isEmpty || s = ['Z'] || s = " UTC".toList then
        some { midnight with hour, minute, second }
      else none
  if m.isValid then some m else none

/-- Reads a form like `202401311230.59`, in which the century or the year can be left out. -/
def readDigits? (thisYear : Nat) (s : Octets) : Option Moment := do
  let front := s.takeWhile (· ≠ '.')
  let second ← match s.drop front.length with
    | [] => some 0
    | _ :: rest => (digits? 2 rest).bind fun (n, rest) => if rest.isEmpty then some n else none
  let (year, rest) ← match front.length with
    | 8 => some (thisYear, front)
    | 10 => (digits? 2 front).map fun (n, rest) => (if n < 69 then 2000 + n else 1900 + n, rest)
    | 12 => digits? 4 front
    | _ => none
  let (month, rest) ← digits? 2 rest
  let (day, rest) ← digits? 2 rest
  let (hour, rest) ← digits? 2 rest
  let (minute, _) ← digits? 2 rest
  let m : Moment := ⟨year, month, day, hour, minute, second⟩
  if m.isValid then some m else none

/-- The short names of the months. -/
def months : List String :=
  ["Jan", "Feb", "Mar", "Apr", "May", "Jun", "Jul", "Aug", "Sep", "Oct", "Nov", "Dec"]

/-- A number with at least two digits, filled with a character. -/
def twoDigits (fill : Char) (n : Nat) : Octets :=
  let digits := Octets.ofNat n
  List.replicate (2 - digits.length) fill ++ digits

/-- The form in which lists of files show a point in time. -/
def listed (m : Moment) : Octets :=
  ((months[m.month - 1]?).getD "").toList ++ ' ' :: twoDigits ' ' m.day ++ ' ' ::
    twoDigits '0' m.hour ++ ':' :: twoDigits '0' m.minute

end Moment
end Bundler.Shell
