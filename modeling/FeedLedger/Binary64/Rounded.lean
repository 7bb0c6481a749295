import FeedLedger.Binary64.Shortest
import FeedLedger.Extended

/-!
The text of a double to fifteen significant digits, as a text column keeps it: a digit stands behind the
point, and from `1e15` on and below `1e-4` there is an exponent. The value is scaled to one digit before the point in
extended precision, a half of the last place is added, and the digits are read off. Because each step rounds, a
value halfway between two texts may get either.
-/

namespace FeedLedger.Binary64

open Text

/-- Multiplies a scale by `factor` as long as `x` is at least the product; `exponent` counts the places. -/
def climb (x factor : Extended) (places : Nat) : Nat → Extended × Int → Extended × Int
  | 0, s => s
  | fuel + 1, (scale, exponent) =>
    let next := scale.mul factor
    if x.atLeast next then climb x factor places fuel (next, exponent + places) else (scale, exponent)

/-- Multiplies a number by `factor` as long as it is below `bound`. -/
def lift (bound factor : Extended) (places : Nat) : Nat → Extended × Int → Extended × Int
  | 0, s => s
  | fuel + 1, (x, exponent) =>
    if x.atLeast bound then (x, exponent) else lift bound factor places fuel (x.mul factor, exponent - places)

/-- A positive number as one with a single digit before the point and a power of ten. No double takes more steps than
are allowed for. -/
def normalized (x : Extended) : Extended × Int :=
  let one := Extended.ofNat 1
  let ten := Extended.ofNat 10
  let (scale, exponent) :=
    climb x ten 1 12 (climb x (.ofScientific 1 10) 10 12 (climb x (.ofScientific 1 100) 100 4 (one, 0)))
  lift one ten 1 12 (lift (.ofScientific 1 (-8)) (.ofScientific 1 8) 8 48 (x.div scale, exponent))

/-- A half of the last of fifteen places, as the product of two doubles. -/
def halfPlace : Extended := .ofScientific 5000000000000001 (-30)

/-- A number with a single digit before the point, after a half of the last place has been added. -/
def roundedUp (s : Extended × Int) : Extended × Int :=
  let x := s.1.add halfPlace
  if x.atLeast (.ofNat 10) then (x.mul (.ofScientific 1 (-1)), s.2 + 1) else (x, s.2)

def leadingDigits : Nat → Extended → List Char
  | 0, _ => []
  | count + 1, x => Nat.digitChar x.floor :: leadingDigits count (x.remainder.mul (.ofNat 10))

/-- At most fifteen significant digits of a positive number, and the place of the point behind them. -/
def fifteenDigits (x : Extended) : List Char × Int :=
  let (y, exponent) := roundedUp (normalized x)
  (dropTrailingZeros (leadingDigits 15 y), exponent + 1)

/-- Digits with a point behind the first `place` of them and at least one digit behind the point. -/
def withPoint (digits : List Char) (place : Int) : List Char :=
  let body := Decimal.pointed digits place
  if digits.length ≤ place.toNat then body ++ ['.', '0'] else body

/-- The text of a finite double to fifteen digits. -/
def roundedChars (negative : Bool) (significand : Nat) (exponent : Int) : List Char :=
  if significand = 0 then "0.0".toList
  else
    let (digits, place) := fifteenDigits ⟨significand, exponent⟩
    (if negative then ['-'] else []) ++
      (if -4 < place ∧ place ≤ 15 then withPoint digits place
        else withPoint digits 1 ++
          'e' :: (if place ≤ 0 then '-' else '+') :: padded 2 (place - 1).natAbs)

end FeedLedger.Binary64
