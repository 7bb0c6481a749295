import FeedLedger.Calendar.Basic
import FeedLedger.Decimal.Numeral

namespace FeedLedger

/-- What a calendar and a clock show. -/
structure Wall where
  year : Nat
  month : Nat
  day : Nat
  hour : Nat
  minute : Nat
  second : Nat
  microsecond : Nat
  deriving DecidableEq

namespace Wall

open Text

def dayMicros : Nat := 86400000000

def ofDay (w : Wall) : Nat := ((w.hour * 60 + w.minute) * 60 + w.second) * 1000000 + w.microsecond

/-- Microseconds since 0001-01-01 00:00. -/
def micros (w : Wall) : Nat := Calendar.dayNumber w.year w.month w.day * dayMicros + w.ofDay

/-- The reading so many microseconds after 0001-01-01 00:00. -/
def ofMicros (n : Nat) : Wall :=
  let (year, month, day) := Calendar.dateOfDay (n / dayMicros)
  let t := n % dayMicros
  ⟨year, month, day, t / 3600000000, t / 60000000 % 60, t / 1000000 % 60, t % 1000000⟩

def IsValid (w : Wall) : Prop :=
  Calendar.IsDate w.year w.month w.day ∧ w.hour < 24 ∧ w.minute < 60 ∧ w.second < 60 ∧
    w.microsecond < 1000000

def secondsChars (separator : Char) (w : Wall) : List Char :=
  padded 4 w.year ++ '-' :: padded 2 w.month ++ '-' :: padded 2 w.day ++ separator ::
    padded 2 w.hour ++ ':' :: padded 2 w.minute ++ ':' :: padded 2 w.second

/-- The stored form: a space between date and time, and always six places of the second. -/
def toChars (w : Wall) : List Char := w.secondsChars ' ' ++ '.' :: padded 6 w.microsecond

def toText (w : Wall) : String := String.ofList w.toChars

end Wall

/-- A wall clock reading, with the clock's offset east of universal time in microseconds if it is known. -/
structure Moment where
  wall : Wall
  offset : Option Int
  deriving DecidableEq

namespace Moment

open Text

/-- A reading without an offset counts as universal time. -/
def withOffset (m : Moment) : Moment := { m with offset := some (m.offset.getD 0) }

def epochMicros : Nat := Calendar.epochDay * Wall.dayMicros

/-- The instant: microseconds since the epoch. -/
def instant (m : Moment) : Int := (m.wall.micros : Int) - epochMicros - m.offset.getD 0

/-- The moment so many microseconds after the epoch, in universal time, if it falls into the years 1 to 9999. -/
def ofEpoch? (micros : Int) : Option Moment :=
  let n := micros + epochMicros
  if 0 ≤ n ∧ n < Calendar.endDay * Wall.dayMicros then some ⟨Wall.ofMicros n.toNat, some 0⟩ else none

/-- Hours, minutes and, where they are not zero, seconds and microseconds of an offset. -/
def offsetChars (offset : Int) : List Char :=
  let n := offset.natAbs
  let fine := n % 60000000
  (if offset < 0 then '-' else '+') :: padded 2 (n / 3600000000) ++ ':' :: padded 2 (n / 60000000 % 60) ++
    (if fine = 0 then [] else ':' :: padded 2 (fine / 1000000)) ++
    (if fine % 1000000 = 0 then [] else '.' :: padded 6 (fine % 1000000))

/-- The written form: the fraction of the second only if there is one, the offset only if it is known.
`separator` stands between date and time. -/
def toCharsWith (separator : Char) (m : Moment) : List Char :=
  m.wall.secondsChars separator ++
    (if m.wall.microsecond = 0 then [] else '.' :: padded 6 m.wall.microsecond) ++
    (match m.offset with | none => [] | some offset => offsetChars offset)

def toText (m : Moment) : String := String.ofList (m.toCharsWith 'T')

def takeNumber (width : Nat) (s : List Char) : Option (Nat × List Char) :=
  let digits := s.take width
  if digits.length = width ∧ digits.all isDigit then some (natOfDigits digits, s.drop width) else none

/-- Reads a two-digit number behind a mark. -/
def takePair (mark : Char) : List Char → Option (Nat × List Char)
  | c :: r => if c = mark then takeNumber 2 r else none
  | [] => none

/-- Reads a fraction of six places; without a point there is none. -/
def takeFraction : List Char → Option (Nat × List Char)
  | '.' :: r => takeNumber 6 r
  | r => some (0, r)

/-- Reads seconds with their fraction; without a colon there are none. -/
def takeSeconds : List Char → Option (Nat × List Char)
  | ':' :: r => do
    let (second, r) ← takeNumber 2 r
    let (fraction, r) ← takeFraction r
    return (second * 1000000 + fraction, r)
  | r => some (0, r)

def offset? (s : List Char) : Option (Option Int) :=
  if s = [] then some none
  else do
    let (negative, r) := Decimal.splitSign s
    let (hour, r) ← takeNumber 2 r
    let (minute, r) ← takePair ':' r
    let (fine, r) ← takeSeconds r
    if r = [] then
      return some (Decimal.signed negative ((hour * 60 + minute) * 60000000 + fine))
    else none

def ofText? (s : String) : Option Moment := do
  let (year, r) ← takeNumber 4 s.toList
  let (month, r) ← takePair '-' r
  let (day, r) ← takePair '-' r
  let (hour, r) ← takePair 'T' r
  let (minute, r) ← takePair ':' r
  let (second, r) ← takePair ':' r
  let (microsecond, r) ← takeFraction r
  let offset ← offset? r
  return ⟨⟨year, month, day, hour, minute, second, microsecond⟩, offset⟩

end Moment

end FeedLedger
