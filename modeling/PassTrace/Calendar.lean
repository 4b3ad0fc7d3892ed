import PassTrace.Number.Integer

/-!
# Dates

Time stamps count seconds since the start of 1970, in universal time. They become dates of the
Gregorian calendar, carried on before its introduction, in the years 1 to 9999.
-/

namespace PassTrace

/-- A date with a time of day. -/
structure DateTime where
  year : Int
  month : Nat
  day : Nat
  hour : Nat
  minute : Nat
  second : Nat
  microsecond : Nat
  deriving DecidableEq, Repr, Inhabited

/-- Why a time stamp has no date. -/
inductive CalendarFault
  | notANumber
  | beyondClock
  | beyondYears
  | yearOutOfRange (year : Int)
  deriving DecidableEq, Repr

/-- The wording of a fault. -/
def CalendarFault.message : CalendarFault → String
  | .notANumber => "Invalid value NaN (not a number)"
  | .beyondClock => "timestamp out of range for platform time_t"
  | .beyondYears => "[Errno 75] Value too large for defined data type"
  | .yearOutOfRange year => s!"year {year} is out of range"

namespace DateTime

/-- The number of seconds of a day. -/
def secondsPerDay : Int := 86400

/-- The year, month and day of a day, counted from the start of 1970. Years start in March here, so
that a leap day is the last of its year; four hundred years have 146097 days. -/
def dateOfDay (day : Int) : Int × Nat × Nat :=
  let shifted := day + 719468
  let era := shifted.fdiv 146097
  let dayOfEra := (shifted.fmod 146097).toNat
  let yearOfEra := (dayOfEra - dayOfEra / 1460 + dayOfEra / 36524 - dayOfEra / 146096) / 365
  let dayOfYear := dayOfEra - (365 * yearOfEra + yearOfEra / 4 - yearOfEra / 100)
  let monthFromMarch := (5 * dayOfYear + 2) / 153
  let dayOfMonth := dayOfYear - (153 * monthFromMarch + 2) / 5 + 1
  let month := if monthFromMarch < 10 then monthFromMarch + 3 else monthFromMarch - 9
  let year := era * 400 + yearOfEra + if month ≤ 2 then 1 else 0
  (year, month, dayOfMonth)

/-- The year in which a second lies. -/
def yearOfSecond (second : Int) : Int :=
  (dateOfDay (second.fdiv secondsPerDay)).1

/-- The first second behind those that a clock has, which count in 64 bits with a sign. -/
def endOfClock : Int := 9223372036854775808

/-- Checks that a date can be made of a second: it and the same time one day earlier must lie in
the years that dates have, and in those that a clock has at all. A year in a message is shown with
32 bits. -/
def check (second : Int) : Except CalendarFault Unit :=
  let year := yearOfSecond second
  let dayBefore := yearOfSecond (second - secondsPerDay)
  if second < -endOfClock ∨ endOfClock ≤ second then .error .beyondClock
  else if year - 1900 < -2147483648 ∨ 2147483647 < year - 1900 then .error .beyondYears
  else if year < 1 ∨ 9999 < year then .error (.yearOutOfRange (year.bmod 4294967296))
  else if dayBefore < 1 then .error (.yearOutOfRange dayBefore)
  else .ok ()

/-- The date of a second and a count of microseconds. -/
def ofSecond (second : Int) (microsecond : Nat) : Except CalendarFault DateTime := do
  check second
  let (year, month, day) := dateOfDay (second.fdiv secondsPerDay)
  let rest := (second.fmod secondsPerDay).toNat
  return ⟨year, month, day, rest / 3600, rest / 60 % 60, rest % 60, microsecond⟩

/-- A finite number split into its integer part and the rest, which has the same sign. -/
def split (negative : Bool) (m : Magnitude) : Int × Binary64 :=
  let units := Binary64.units negative m
  let one : Int := Magnitude.unitsPerOne
  let whole := units.tdiv one
  (whole, Binary64.ofUnits negative (units - whole * one) 1)

/-- The integer nearest to a finite number, a half to the even one. -/
def nearestInteger : Binary64 → Int
  | .finite negative m =>
    let n : Int := Magnitude.roundQuotient m.scaled Magnitude.unitsPerOne
    if negative then -n else n
  | _ => 0

/-- The date of a time stamp, with its fraction of a second rounded to microseconds. The end of the
clock is not told from its last second, since floating-point numbers do not tell them apart. -/
def ofTimestamp (t : Binary64) : Except CalendarFault DateTime :=
  match t with
  | .nan => .error .notANumber
  | .infinity _ => .error .beyondClock
  | .finite negative m =>
    let (whole, fraction) := split negative m
    let micro := nearestInteger (fraction.mul (.ofFraction false 1000000 1))
    if whole = endOfClock then .error .beyondYears
    else if 1000000 ≤ micro then ofSecond (whole + 1) (micro - 1000000).toNat
    else if micro < 0 then ofSecond (whole - 1) (micro + 1000000).toNat
    else ofSecond whole micro.toNat

/-- A number with at least `width` digits. -/
def padded (width n : Nat) : String :=
  let digits := Nat.toDigits 10 n
  String.ofList (List.replicate (width - digits.length) '0' ++ digits)

/-- The time of day. -/
def clockText (separator : String) (d : DateTime) : String :=
  padded 2 d.hour ++ separator ++ padded 2 d.minute ++ separator ++ padded 2 d.second

/-- The date in the international form, with microseconds if there are any. -/
def isoText (d : DateTime) : String :=
  let micro := if d.microsecond = 0 then "" else "." ++ padded 6 d.microsecond
  padded 4 d.year.toNat ++ "-" ++ padded 2 d.month ++ "-" ++ padded 2 d.day ++ "T" ++
    d.clockText ":" ++ micro

/-- The day, where the year has no leading zeros. -/
def dayText (d : DateTime) : String :=
  s!"{d.year}-{padded 2 d.month}-{padded 2 d.day}"

/-- The date in lists, to the second. -/
def listText (d : DateTime) : String :=
  d.dayText ++ " " ++ d.clockText ":"

/-- The date in file names, to the microsecond. -/
def fileText (d : DateTime) : String :=
  d.dayText ++ "-" ++ d.clockText "" ++ "-" ++ padded 6 d.microsecond

end DateTime
end PassTrace
