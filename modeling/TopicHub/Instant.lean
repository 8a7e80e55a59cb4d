import TopicHub.Number.Reading

/-!
Points in time, read from and written as calendar dates with a time of day. Reading is generous about
blanks, the number of digits and the letter between date and time; writing has one form, in UTC.
-/

namespace TopicHub

open Number Text

/-- Seconds since the start of 1970 and the part of a second. A leap second is the last second of its
minute with a part beyond one second. -/
structure Instant where
  seconds : Int
  nanos : Nat
  deriving DecidableEq, Repr, Inhabited

namespace Instant

def ofMillis (ms : Int) : Instant := ⟨ms.fdiv 1000, (ms.fmod 1000).toNat * 1000000⟩

def totalNanos (t : Instant) : Int := t.seconds * 1000000000 + t.nanos

def millisSince (t s : Instant) : Int := (t.totalNanos - s.totalNanos).tdiv 1000000

def toMillis (t : Instant) : Int := t.totalNanos.fdiv 1000000

def le (s t : Instant) : Bool :=
  s.seconds < t.seconds || s.seconds = t.seconds && s.nanos ≤ t.nanos

structure Date where
  year : Int
  month : Nat
  day : Nat
  deriving DecidableEq, Repr

def isLeapYear (y : Int) : Bool := y % 4 = 0 && (y % 100 ≠ 0 || y % 400 = 0)

def daysInMonth (y : Int) (m : Nat) : Nat :=
  if m = 2 then (if isLeapYear y then 29 else 28)
  else if m = 4 || m = 6 || m = 9 || m = 11 then 30 else 31

def minYear : Int := -262143

def maxYear : Int := 262142

def Date.isValid (d : Date) : Bool :=
  minYear ≤ d.year && d.year ≤ maxYear && 1 ≤ d.month && d.month ≤ 12 && 1 ≤ d.day &&
    d.day ≤ daysInMonth d.year d.month

/-- Days since the first of March of the year zero; years are counted from March, so that the leap day
comes last. -/
def marchDays (y : Int) (m d : Nat) : Int :=
  let y := if m ≤ 2 then y - 1 else y
  let m := if m ≤ 2 then m + 9 else m - 3
  365 * y + y.fdiv 4 - y.fdiv 100 + y.fdiv 400 + ((153 * m + 2) / 5 + d - 1 : Nat)

def epochDays : Int := 719468

def Date.toDays (d : Date) : Int := marchDays d.year d.month d.day - epochDays

def Date.ofDays (days : Int) : Date :=
  let z := days + epochDays
  let era := z.fdiv 146097
  let dayOfEra := (z.fmod 146097).toNat
  let yearOfEra := (dayOfEra - dayOfEra / 1460 + dayOfEra / 36524 - dayOfEra / 146096) / 365
  let dayOfYear := dayOfEra - (365 * yearOfEra + yearOfEra / 4 - yearOfEra / 100)
  let m := (5 * dayOfYear + 2) / 153
  let day := dayOfYear - (153 * m + 2) / 5 + 1
  let month := if m < 10 then m + 3 else m - 9
  ⟨yearOfEra + era * 400 + (if month ≤ 2 then 1 else 0), month, day⟩

/-- Whether the day of an instant, in UTC, is one of the calendar. -/
def isDated (t : Instant) : Bool :=
  let year := (Date.ofDays (t.seconds.fdiv 86400)).year
  minYear ≤ year && year ≤ maxYear

def readNumber (width : Nat) (s : List Char) : Option (Nat × List Char) :=
  let s := trimStart s
  let ds := (s.takeWhile isDigit).take width
  if ds.isEmpty then none else some (natFrom 0 ds, s.drop ds.length)

/-- Four digits, or a sign and any number of digits. -/
def readYear (s : List Char) : Option (Int × List Char) :=
  match trimStart s with
  | '-' :: t =>
    if (t.takeWhile isDigit).isEmpty then none
    else some (-(natFrom 0 (t.takeWhile isDigit) : Int), t.dropWhile isDigit)
  | '+' :: t =>
    if (t.takeWhile isDigit).isEmpty then none
    else some (natFrom 0 (t.takeWhile isDigit), t.dropWhile isDigit)
  | t => (readNumber 4 t).map fun (n, rest) => ((n : Int), rest)

def readMark (mark : Char) (s : List Char) : Option (List Char) :=
  match trimStart s with
  | c :: rest => if c = mark then some rest else none
  | [] => none

/-- Nanoseconds behind a point; digits beyond the ninth are passed over. -/
def readNanos : List Char → Option (Nat × List Char)
  | '.' :: s =>
    let ds := (s.takeWhile isDigit).take 9
    if ds.isEmpty then none
    else some (natFrom 0 ds * Nat.pow 10 (9 - ds.length), s.dropWhile isDigit)
  | s => some (0, s)

def twoDigits? : List Char → Option (Nat × List Char)
  | a :: b :: s => if isDigit a && isDigit b then some (natFrom 0 [a, b], s) else none
  | _ => none

def readSigned (sign : Int) (s : List Char) : Option (Int × List Char) := do
  let (hours, s) ← twoDigits? s
  let (minutes, s) ← twoDigits? (s.dropWhile fun c => c = ':' || isBlank c)
  if minutes < 60 && hours < 24 then pure (sign * (hours * 3600 + minutes * 60 : Nat), s) else none

def readOffset (s : List Char) : Option (Int × List Char) :=
  match trimStart s with
  | [] => none
  | c :: t =>
    if c = 'Z' || c = 'z' then some (0, t)
    else if c = '+' then readSigned 1 t
    else if c = '-' || c = '\u2212' then readSigned (-1) t
    else if ((c :: t).take 3).map Char.toUpper = ['U', 'T', 'C'] then some (0, t.drop 2)
    else none

def readChars? (s : List Char) : Option Instant := do
  let (year, s) ← readYear s
  let s ← readMark '-' s
  let (month, s) ← readNumber 2 s
  let s ← readMark '-' s
  let (day, s) ← readNumber 2 s
  let date : Date := ⟨year, month, day⟩
  let s ← match s with
    | c :: t => if c = 'T' || c = 't' || c = ' ' then some t else none
    | [] => none
  let (hour, s) ← readNumber 2 s
  let s ← readMark ':' s
  let (minute, s) ← readNumber 2 s
  let s ← readMark ':' s
  let (second, s) ← readNumber 2 s
  let (nanos, s) ← readNanos s
  let (offset, s) ← readOffset s
  if date.isValid && hour < 24 && minute < 60 && second ≤ 60 && (trimStart s).isEmpty then
    let leap := second = 60
    let inDay : Nat := hour * 3600 + minute * 60 + (if leap then 59 else second)
    let t : Instant :=
      ⟨date.toDays * 86400 + inDay - offset, if leap then nanos + 1000000000 else nanos⟩
    if t.isDated then pure t else none
  else none

def read? (text : String) : Option Instant := readChars? text.toList

def padded (width n : Nat) : String :=
  let ds := toString n
  String.ofList (List.replicate (width - ds.length) '0') ++ ds

def yearText (y : Int) : String :=
  if 0 ≤ y && y ≤ 9999 then padded 4 y.toNat
  else (if y < 0 then "-" else "+") ++ padded 4 y.natAbs

def fractionText (nanos : Nat) : String :=
  if nanos = 0 then ""
  else if nanos % 1000000 = 0 then "." ++ padded 3 (nanos / 1000000)
  else if nanos % 1000 = 0 then "." ++ padded 6 (nanos / 1000)
  else "." ++ padded 9 nanos

/-- Date and time of day in UTC, without the mark that says so. -/
def bareText (t : Instant) : String :=
  let date := Date.ofDays (t.seconds.fdiv 86400)
  let inDay := (t.seconds.fmod 86400).toNat
  let leap := 1000000000 ≤ t.nanos
  let second := inDay % 60 + (if leap then 1 else 0)
  let nanos := if leap then t.nanos - 1000000000 else t.nanos
  yearText date.year ++ "-" ++ padded 2 date.month ++ "-" ++ padded 2 date.day ++ "T" ++
    padded 2 (inDay / 3600) ++ ":" ++ padded 2 (inDay / 60 % 60) ++ ":" ++ padded 2 second ++
    fractionText nanos

def text (t : Instant) : String := t.bareText ++ "Z"

def offsetText (t : Instant) : String := t.bareText ++ "+00:00"

end Instant

end TopicHub
