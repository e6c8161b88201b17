/-!
Time stamps. Times are counted in millionths of a second from the first of January 2024; earlier
times are negative.
-/
namespace InkPreview.Calendar

def isLeap (year : Nat) : Bool := year % 4 = 0 && (year % 100 ≠ 0 || year % 400 = 0)

def monthLength (year month : Nat) : Nat :=
  if month = 2 then (if isLeap year then 29 else 28)
  else if month = 4 || month = 6 || month = 9 || month = 11 then 30
  else 31

def yearLength (year : Nat) : Nat := if isLeap year then 366 else 365

/-- The month and day of the month of a day of a year, from the month given on. -/
def findMonth (year : Nat) : Nat → Nat → Nat → Nat × Nat
  | 0, month, day => (month, day + 1)
  | fuel + 1, month, day =>
    if day < monthLength year month then (month, day + 1)
    else findMonth year fuel (month + 1) (day - monthLength year month)

/-- The year, month and day that lie a count of days after the first day of a year. -/
def findDate : Nat → Nat → Nat → Nat × Nat × Nat
  | 0, year, day => (year, findMonth year 11 1 day)
  | fuel + 1, year, day =>
    if day < yearLength year then (year, findMonth year 11 1 day)
    else findDate fuel (year + 1) (day - yearLength year)

def padded (width n : Nat) : String :=
  let s := toString n
  String.ofList (List.replicate (width - s.length) '0') ++ s

/-- After so many days the calendar repeats itself. -/
def cycleDays : Nat := 146097

/-- The year, month and day that lie a count of days after the first day of the year 1. -/
def dateOf (days : Nat) : Nat × Nat × Nat :=
  let (year, month, day) := findDate 400 1 (days % cycleDays)
  (year + 400 * (days / cycleDays), month, day)

/-- The days from the first day of the year 1 to the first of January 2024. -/
def daysBefore : Nat := 738885

/-- Date and time with a `T` between them; the fraction is written only when there is one. -/
def stamp (micros : Int) : String :=
  let seconds := micros / 1000000
  let fraction := (micros % 1000000).toNat
  let inDay := (seconds % 86400).toNat
  let (year, month, day) := dateOf (seconds / 86400 + daysBefore).toNat
  padded 4 year ++ "-" ++ padded 2 month ++ "-" ++ padded 2 day ++ "T" ++
    padded 2 (inDay / 3600) ++ ":" ++ padded 2 (inDay / 60 % 60) ++ ":" ++ padded 2 (inDay % 60) ++
    (if fraction = 0 then "" else "." ++ padded 6 fraction)

end InkPreview.Calendar
