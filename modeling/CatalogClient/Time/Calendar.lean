import CatalogClient.Time.Span
import CatalogClient.Text.Blank
/-!
Points of time in the proleptic Gregorian calendar, in nanoseconds from the start of 1970 (UTC),
between the first instant of the year -262143 and the last of the year 262142, with their text
after RFC 3339. A leap second may stand at the end of any minute.
-/

namespace CatalogClient

/-- Days from 1970-01-01 to a date. Years are counted from March, so that the day a leap year adds
is the last one. -/
def daysFromDate (year : Int) (month day : Nat) : Int :=
  let y := if month ≤ 2 then year - 1 else year
  let era := y / 400
  let yearOfEra := y % 400
  let m : Int := if 2 < month then month - 3 else month + 9
  let dayOfYear := (153 * m + 2) / 5 + day - 1
  let dayOfEra := yearOfEra * 365 + yearOfEra / 4 - yearOfEra / 100 + dayOfYear
  era * 146097 + dayOfEra - 719468

structure Date where
  year : Int
  month : Nat
  day : Nat
  deriving DecidableEq, Repr

def dateFromDays (days : Int) : Date :=
  let z := days + 719468
  let era := z / 146097
  let dayOfEra := z % 146097
  let yearOfEra := (dayOfEra - dayOfEra / 1460 + dayOfEra / 36524 - dayOfEra / 146096) / 365
  let dayOfYear := dayOfEra - (365 * yearOfEra + yearOfEra / 4 - yearOfEra / 100)
  let mp := (5 * dayOfYear + 2) / 153
  let day := dayOfYear - (153 * mp + 2) / 5 + 1
  let month := if mp < 10 then mp + 3 else mp - 9
  ⟨yearOfEra + era * 400 + (if month ≤ 2 then 1 else 0), month.toNat, day.toNat⟩

def isLeapYear (y : Int) : Bool := y % 4 = 0 && (y % 100 != 0 || y % 400 = 0)

def daysInMonth (y : Int) (month : Nat) : Nat :=
  if month = 2 then (if isLeapYear y then 29 else 28)
  else if month ∈ [4, 6, 9, 11] then 30
  else 31

/-- A point of time. The nanoseconds of a leap second count on from the second before it, so that
they run beside those of the second behind it; the flag tells the two apart. -/
structure UtcTime where
  nanos : Int
  inLeap : Bool
  deriving DecidableEq, Repr, Inhabited

namespace UtcTime

def second : Int := 1000000000

/-- A time outside leap seconds. -/
def ofNanos (n : Int) : UtcTime := ⟨n, false⟩

/-- The second of a time; a leap second counts with the one before it. -/
def wholeSeconds (t : UtcTime) : Int := (if t.inLeap then t.nanos - second else t.nanos) / second

/-- A leap second stands between the second before it and the one behind it. -/
instance : LE UtcTime :=
  ⟨fun a b => a.wholeSeconds < b.wholeSeconds ∨ a.wholeSeconds = b.wholeSeconds ∧ a.nanos ≤ b.nanos⟩

instance (a b : UtcTime) : Decidable (a ≤ b) := inferInstanceAs (Decidable (_ ∨ _))

theorem ofNanos_le_ofNanos {m n : Int} : ofNanos m ≤ ofNanos n ↔ m ≤ n := by
  show m / second < n / second ∨ m / second = n / second ∧ m ≤ n ↔ m ≤ n
  simp only [second]
  omega

def earliest : Int := daysFromDate (-262143) 1 1 * 86400 * second

/-- The first nanosecond that is too late. -/
def tooLate : Int := daysFromDate 262143 1 1 * 86400 * second

def ofNanos? (n : Int) : Option UtcTime :=
  if earliest ≤ n ∧ n < tooLate then some (ofNanos n) else none

def inRange? (t : UtcTime) : Option UtcTime :=
  if earliest ≤ t.wholeSeconds * second ∧ t.wholeSeconds * second < tooLate then some t else none

/-- Lengths of calendar arithmetic are at most `2 ^ 63 - 1` milliseconds. -/
def longestStep : Int := 9223372036854775807 * 1000000

/-- The time `n` nanoseconds further, where a leap second is passed over unless the step starts in
it. -/
def stepFrom (t : UtcTime) (n : Int) : Option UtcTime :=
  let there := t.nanos + n
  if t.inLeap then
    let leapStart := (t.wholeSeconds + 1) * second
    if leapStart + second ≤ there then ofNanos? (there - second)
    else inRange? ⟨there, leapStart ≤ there⟩
  else ofNanos? there

def step? (t : UtcTime) (n : Int) : Option UtcTime :=
  if -longestStep ≤ n ∧ n ≤ longestStep then t.stepFrom n else none

def addSeconds? (t : UtcTime) (s : Int) : Option UtcTime :=
  if s ≤ 9223372036854775807 / 1000 then t.step? (s * second) else none

def secondOfDay (t : UtcTime) : Int := t.wholeSeconds % 86400

def secondsSince (t s : UtcTime) : Int :=
  let leap := if s.inLeap ∧ s.secondOfDay < t.secondOfDay then second
    else if t.inLeap ∧ t.secondOfDay < s.secondOfDay then -second
    else 0
  (t.nanos - s.nanos + leap).tdiv second

/-- Four digits, or a sign and at least five characters with it outside the years 0 to 9999. -/
def writeYear (y : Int) : List Char :=
  if 0 ≤ y ∧ y ≤ 9999 then Decimal.writePadded 4 y.toNat
  else (if y < 0 then '-' else '+') :: Decimal.writePadded 4 y.natAbs

/-- No digits of a second, or three, six or nine: the fewest that lose nothing. -/
def writeFraction (nanos : Nat) : List Char :=
  if nanos = 0 then []
  else if nanos % 1000000 = 0 then '.' :: Decimal.writePadded 3 (nanos / 1000000)
  else if nanos % 1000 = 0 then '.' :: Decimal.writePadded 6 (nanos / 1000)
  else '.' :: Decimal.writePadded 9 nanos

def render (t : UtcTime) : String :=
  let seconds := t.wholeSeconds
  let date := dateFromDays (seconds / 86400)
  let ofDay := (seconds % 86400).toNat
  let two := Decimal.writePadded 2
  String.ofList (writeYear date.year ++ '-' :: two date.month ++ '-' :: two date.day ++
    'T' :: two (ofDay / 3600) ++ ':' :: two (ofDay / 60 % 60) ++
    ':' :: two (ofDay % 60 + t.inLeap.toNat) ++ writeFraction (t.nanos % second).toNat ++ ['Z'])

/-- A number of one digit up to `width` digits, blanks before it passed over. -/
def readField (width : Nat) (cs : List Char) : Option (Nat × List Char) :=
  let cs := cs.dropWhile Text.isBlank
  let ds := (cs.take width).takeWhile Decimal.isDigit
  if ds = [] then none else some (Decimal.value ds, cs.drop ds.length)

/-- The year may have a sign, and then any number of digits. -/
def readYear (cs : List Char) : Option (Int × List Char) :=
  let cs := cs.dropWhile Text.isBlank
  match cs with
  | '-' :: rest => (digits rest).map fun (n, r) => (-(n : Int), r)
  | '+' :: rest => (digits rest).map fun (n, r) => ((n : Int), r)
  | cs => (readField 4 cs).map fun (n, r) => ((n : Int), r)
where
  digits (cs : List Char) : Option (Nat × List Char) :=
    let ds := cs.takeWhile Decimal.isDigit
    if ds = [] then none else some (Decimal.value ds, cs.drop ds.length)

def expect (c : Char) (cs : List Char) : Option (List Char) :=
  match cs.dropWhile Text.isBlank with
  | d :: rest => if c = d then some rest else none
  | [] => none

/-- Digits behind the point of a second; those after the ninth do not count. -/
def readFraction (cs : List Char) : Option (Nat × List Char) :=
  match cs with
  | '.' :: rest =>
    let ds := rest.takeWhile Decimal.isDigit
    if ds = [] then none
    else
      let used := ds.take 9
      some (Decimal.value used * Decimal.powerOfTen (9 - used.length), rest.drop ds.length)
  | cs => some (0, cs)

/-- An offset from UTC in seconds: `Z`, `UTC`, or a sign, two digits of hours and two of minutes. -/
def readOffset (cs : List Char) : Option (Int × List Char) :=
  match cs with
  | a :: b :: c :: rest =>
    if [a, b, c].map Char.toLower = ['u', 't', 'c'] then some (0, rest) else numeric cs
  | cs => numeric cs
where
  numeric (cs : List Char) : Option (Int × List Char) := do
    match cs with
    | 'Z' :: rest | 'z' :: rest => return (0, rest)
    | sign :: h1 :: h2 :: rest =>
      let negative ← if sign = '+' then some false
        else if sign = '-' ∨ sign.toNat = 0x2212 then some true else none
      match rest.dropWhile fun c => c = ':' || Text.isBlank c with
      | m1 :: m2 :: rest =>
        if Decimal.isDigit h1 ∧ Decimal.isDigit h2 ∧ '0' ≤ m1 ∧ m1 ≤ '5' ∧ Decimal.isDigit m2 then
          let n : Int := Decimal.value [h1, h2] * 3600 + Decimal.value [m1, m2] * 60
          if n < 86400 then return (if negative then -n else n, rest) else none
        else none
      | _ => none
    | _ => none

/-- A date and a time with an offset. Blanks may stand before each part, and a blank may stand for
the letter between date and time. The date has to be in range before and after the offset counts. -/
def read? (s : String) : Option UtcTime := do
  let (year, cs) ← readYear s.toList
  let (month, cs) ← readField 2 (← expect '-' cs)
  let (day, cs) ← readField 2 (← expect '-' cs)
  let cs ← match cs with
    | 'T' :: r | 't' :: r | ' ' :: r => some r
    | _ => none
  let (hour, cs) ← readField 2 cs
  let (minute, cs) ← readField 2 (← expect ':' cs)
  let (sec, cs) ← readField 2 (← expect ':' cs)
  let (fraction, cs) ← readFraction cs
  let (offset, cs) ← readOffset (cs.dropWhile Text.isBlank)
  if ¬ (cs.all Text.isBlank) then none
  else if -262143 ≤ year ∧ year ≤ 262142 ∧ 1 ≤ month ∧ month ≤ 12 ∧ 1 ≤ day ∧
      day ≤ daysInMonth year month ∧ hour < 24 ∧ minute < 60 ∧ sec ≤ 60 then
    let ofDay := hour * 3600 + minute * 60 + sec
    let seconds := daysFromDate year month day * 86400 + ofDay - offset
    inRange? ⟨seconds * second + fraction, sec = 60⟩
  else none

end UtcTime

end CatalogClient
