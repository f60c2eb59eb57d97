/-!
# Timestamps

Milliseconds since the first of January 1970 in universal time, written as a date
and a time of day with milliseconds. Dates are those of the Gregorian calendar,
continued before its introduction, with a year 0.

Those who read and write times are given a format for them. The format of RFC 3339
here is the one that the program gives them.
-/

namespace ShardQuery.Timestamp

structure Date where
  year : Int
  month : Nat
  day : Nat

def isLeap (year : Int) : Bool := year % 4 == 0 && (year % 100 != 0 || year % 400 == 0)

def monthLength (year : Int) (month : Nat) : Nat :=
  match month with
  | 2 => if isLeap year then 29 else 28
  | 4 => 30
  | 6 => 30
  | 9 => 30
  | 11 => 30
  | _ => 31

/-- Days from the first day of 1970. Years are counted from March on, so that a leap day is the
last day of its year. -/
def Date.toDays (date : Date) : Int :=
  let year := if date.month ≤ 2 then date.year - 1 else date.year
  let era := year / 400
  let yearOfEra := year % 400
  let month : Int := if date.month ≤ 2 then date.month + 9 else date.month - 3
  let dayOfYear := (153 * month + 2) / 5 + date.day - 1
  let dayOfEra := yearOfEra * 365 + yearOfEra / 4 - yearOfEra / 100 + dayOfYear
  era * 146097 + dayOfEra - 719468

def Date.ofDays (days : Int) : Date :=
  let shifted := days + 719468
  let era := shifted / 146097
  let dayOfEra := shifted % 146097
  let yearOfEra := (dayOfEra - dayOfEra / 1460 + dayOfEra / 36524 - dayOfEra / 146096) / 365
  let dayOfYear := dayOfEra - (365 * yearOfEra + yearOfEra / 4 - yearOfEra / 100)
  let shiftedMonth := (5 * dayOfYear + 2) / 153
  let day := dayOfYear - (153 * shiftedMonth + 2) / 5 + 1
  let month := if shiftedMonth < 10 then shiftedMonth + 3 else shiftedMonth - 9
  let year := yearOfEra + era * 400
  ⟨if month ≤ 2 then year + 1 else year, month.toNat, day.toNat⟩

def padded (width n : Nat) : String :=
  let digits := toString n
  String.ofList (List.replicate (width - digits.length) '0') ++ digits

/-- Four digits; a sign where the year has more or is negative. -/
def renderYear (year : Int) : String :=
  if 0 ≤ year ∧ year ≤ 9999 then padded 4 year.toNat
  else (if year < 0 then "-" else "+") ++ padded 4 year.natAbs

/-- The date and time; nothing for years that have no calendar. -/
def render? (millis : Int64) : Option String :=
  let millis := millis.toInt
  let date := Date.ofDays (millis / 86400000)
  if date.year < -262143 ∨ 262142 < date.year then none
  else
    let rest := (millis % 86400000).toNat
    some <| renderYear date.year ++ "-" ++ padded 2 date.month ++ "-" ++ padded 2 date.day ++
      "T" ++ padded 2 (rest / 3600000) ++ ":" ++ padded 2 (rest / 60000 % 60) ++ ":" ++
      padded 2 (rest / 1000 % 60) ++ "." ++ padded 3 (rest % 1000) ++ "Z"

def render (millis : Int64) : String := (render? millis).getD (toString millis.toInt)

/-- The number that exactly `count` digits stand for. -/
def number? (count : Nat) (text : List Char) : Option (Nat × List Char) :=
  let digits := text.take count
  if digits.length = count ∧ digits.all Char.isDigit then
    some (digits.foldl (fun n c => 10 * n + (c.toNat - 48)) 0, text.drop count)
  else none

def symbol? (c : Char) : List Char → Option (List Char)
  | first :: rest => if first = c then some rest else none
  | [] => none

/-- A fraction of a second in nanoseconds; digits after the ninth are passed over. -/
def fraction? (text : List Char) : Option (Nat × List Char) :=
  let digits := (text.takeWhile Char.isDigit).take 9
  if digits.isEmpty then none
  else
    let n := digits.foldl (fun n c => 10 * n + (c.toNat - 48)) 0
    some (n * Nat.pow 10 (9 - digits.length), text.dropWhile Char.isDigit)

/-- The offset from universal time in minutes, below a day. -/
def offset? (text : List Char) : Option (Int × List Char) :=
  let signed (sign : Int) (text : List Char) : Option (Int × List Char) := do
    let (hours, text) ← number? 2 text
    let text ← symbol? ':' text
    let (minutes, text) ← number? 2 text
    if hours ≤ 23 ∧ minutes ≤ 59 then some (sign * (hours * 60 + minutes), text) else none
  match text with
  | 'Z' :: rest => some (0, rest)
  | 'z' :: rest => some (0, rest)
  | '+' :: rest => signed 1 rest
  | '-' :: rest => signed (-1) rest
  | '\u2212' :: rest => signed (-1) rest
  | _ => none

/-- Reads a date, a time of day and an offset. The second 60 is the one after 59. -/
def parse? (text : String) : Option Int64 := do
  let (year, text) ← number? 4 text.toList
  let text ← symbol? '-' text
  let (month, text) ← number? 2 text
  let text ← symbol? '-' text
  let (day, text) ← number? 2 text
  let text ← match text with
    | 'T' :: rest => some rest
    | 't' :: rest => some rest
    | ' ' :: rest => some rest
    | _ => none
  let (hour, text) ← number? 2 text
  let text ← symbol? ':' text
  let (minute, text) ← number? 2 text
  let text ← symbol? ':' text
  let (second, text) ← number? 2 text
  let (nanos, text) ← match text with
    | '.' :: rest => fraction? rest
    | text => some (0, text)
  let (offset, text) ← offset? text
  if text.isEmpty ∧ 1 ≤ month ∧ month ≤ 12 ∧ 1 ≤ day ∧ day ≤ monthLength year month ∧
      hour ≤ 23 ∧ minute ≤ 59 ∧ second ≤ 60 then
    let minutes := (Date.toDays ⟨year, month, day⟩ * 24 + hour) * 60 + minute - offset
    some (Int64.ofInt ((minutes * 60 + second) * 1000 + nanos / 1000000))
  else none

structure Format where
  parse? : String → Option Int64
  /-- Nothing where the calendar ends. -/
  render? : Int64 → Option String

def rfc3339 : Format := ⟨parse?, render?⟩

end ShardQuery.Timestamp
