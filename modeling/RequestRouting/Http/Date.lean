import RequestRouting.Text.Cut

/-!
# Dates in header fields

Dates are written in the fixed-length form, and read in that and two older forms. A date that
doesn't exist, or isn't on the given day of the week, isn't read at all.
-/

namespace RequestRouting

/-- A point in time of the Gregorian calendar, with Sunday as day zero of the week. -/
structure Date where
  year : Nat
  month : Nat
  day : Nat
  weekday : Nat
  hour : Nat
  minute : Nat
  second : Nat
  deriving DecidableEq, Repr

namespace Date

/-- The three letters of a month. -/
def monthNames : List String :=
  ["Jan", "Feb", "Mar", "Apr", "May", "Jun", "Jul", "Aug", "Sep", "Oct", "Nov", "Dec"]

/-- The names of the days of the week. -/
def weekdayNames : List String :=
  ["Sunday", "Monday", "Tuesday", "Wednesday", "Thursday", "Friday", "Saturday"]

/-- The three letters of a day of the week. -/
def weekdayLetters : List String := ["Sun", "Mon", "Tue", "Wed", "Thu", "Fri", "Sat"]

/-- The date of a number of seconds since the beginning of 1970. Days are counted in cycles of 400
years that start in March, so a leap day is the last of its year. -/
def ofSeconds (seconds : Nat) : Date :=
  let days := seconds / 86400
  let rest := seconds % 86400
  let z := days + 719468
  let cycle := z / 146097
  let dayOfCycle := z % 146097
  let yearOfCycle :=
    (dayOfCycle - dayOfCycle / 1460 + dayOfCycle / 36524 - dayOfCycle / 146096) / 365
  let dayOfYear := dayOfCycle - (365 * yearOfCycle + yearOfCycle / 4 - yearOfCycle / 100)
  let shifted := (5 * dayOfYear + 2) / 153
  let month := if shifted < 10 then shifted + 3 else shifted - 9
  { year := yearOfCycle + cycle * 400 + if month ≤ 2 then 1 else 0
    month
    day := dayOfYear - (153 * shifted + 2) / 5 + 1
    weekday := (days + 4) % 7
    hour := rest / 3600
    minute := rest / 60 % 60
    second := rest % 60 }

/-- The number of days from the beginning of 1970 to a date. -/
def days (d : Date) : Nat :=
  let year := if d.month ≤ 2 then d.year - 1 else d.year
  let shifted := if d.month ≤ 2 then d.month + 9 else d.month - 3
  let yearOfCycle := year % 400
  let dayOfYear := (153 * shifted + 2) / 5 + d.day - 1
  year / 400 * 146097 + (yearOfCycle * 365 + yearOfCycle / 4 - yearOfCycle / 100 + dayOfYear) -
    719468

/-- The number of seconds from the beginning of 1970 to a date. -/
def seconds (d : Date) : Nat := ((d.days * 24 + d.hour) * 60 + d.minute) * 60 + d.second

/-- Whether the date exists, is on its day of the week, and has a year of four digits from 1970
on. -/
def exists? (d : Date) : Bool :=
  1970 ≤ d.year && d.year ≤ 9999 && ofSeconds d.seconds = d

/-- A number with at least the given number of digits. -/
def padded (width n : Nat) : String :=
  let digits := toString n
  .ofList (List.replicate (width - digits.length) '0') ++ digits

/-- The fixed-length form of a date. -/
def text (d : Date) : String :=
  weekdayLetters.getD d.weekday "" ++ ", " ++ padded 2 d.day ++ " " ++
    monthNames.getD (d.month - 1) "" ++ " " ++ padded 4 d.year ++ " " ++ padded 2 d.hour ++ ":" ++
    padded 2 d.minute ++ ":" ++ padded 2 d.second ++ " GMT"

/-- Reads a number with the given number of digits. -/
def number (width : Nat) (s : List Char) : Option (Nat × List Char) :=
  let digits := s.take width
  if digits.length = width && digits.all Char.isDigit then
    some (digits.foldl (fun n c => n * 10 + (c.toNat - 0x30)) 0, s.drop width)
  else none

/-- Reads one of several names, yielding its place. -/
def oneOf (names : List String) (s : List Char) : Option (Nat × List Char) :=
  names.zipIdx.findSome? fun (name, i) => (Text.Chars.dropLead? name.toList s).map (i, ·)

/-- Reads a given text. -/
def exactly (text : String) (s : List Char) : Option (List Char) :=
  Text.Chars.dropLead? text.toList s

/-- Reads the time of day. -/
def timeOfDay (s : List Char) : Option ((Nat × Nat × Nat) × List Char) := do
  let (hour, s) ← number 2 s
  let s ← exactly ":" s
  let (minute, s) ← number 2 s
  let s ← exactly ":" s
  let (second, s) ← number 2 s
  some ((hour, minute, second), s)

/-- Reads the fixed-length form, e.g. `Sun, 06 Nov 1994 08:49:37 GMT`. -/
def readFixed (s : List Char) : Option Date := do
  let (weekday, s) ← oneOf weekdayLetters s
  let s ← exactly ", " s
  let (day, s) ← number 2 s
  let s ← exactly " " s
  let (month, s) ← oneOf monthNames s
  let s ← exactly " " s
  let (year, s) ← number 4 s
  let s ← exactly " " s
  let ((hour, minute, second), s) ← timeOfDay s
  let s ← exactly " GMT" s
  guard s.isEmpty
  some { year, month := month + 1, day, weekday, hour, minute, second }

/-- Reads the form with a year of two digits, e.g. `Sunday, 06-Nov-94 08:49:37 GMT`. Years below 70
are in the century after 2000, and any character separates the year from the time. -/
def readShortYear (s : List Char) : Option Date := do
  let (weekday, s) ← oneOf weekdayNames s
  let s ← exactly ", " s
  let (day, s) ← number 2 s
  let s ← exactly "-" s
  let (month, s) ← oneOf monthNames s
  let s ← exactly "-" s
  let (year, s) ← number 2 s
  let _ :: s := s | none
  let ((hour, minute, second), s) ← timeOfDay s
  let s ← exactly " GMT" s
  guard s.isEmpty
  let year := if year < 70 then year + 2000 else year + 1900
  some { year, month := month + 1, day, weekday, hour, minute, second }

/-- Reads the form without a time zone, e.g. `Sun Nov  6 08:49:37 1994`. -/
def readPlain (s : List Char) : Option Date := do
  let (weekday, s) ← oneOf weekdayLetters s
  let s ← exactly " " s
  let (month, s) ← oneOf monthNames s
  let s ← exactly " " s
  let (day, s) ← match s with
    | ' ' :: s => number 1 s
    | s => number 2 s
  let s ← exactly " " s
  let ((hour, minute, second), s) ← timeOfDay s
  let s ← exactly " " s
  let (year, s) ← number 4 s
  guard s.isEmpty
  some { year, month := month + 1, day, weekday, hour, minute, second }

/-- Reads a date in any of the three forms. -/
def parse? (text : String) : Option Date := do
  let s := text.toList
  guard (s.all fun c => c.toNat < 0x80)
  let s := Text.Chars.trim Text.isBlank s
  let d ← readFixed s <|> readShortYear s <|> readPlain s
  guard d.exists?
  some d

end Date

end RequestRouting
