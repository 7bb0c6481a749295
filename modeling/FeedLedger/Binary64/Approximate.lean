import FeedLedger.Decimal.Numeral
import FeedLedger.Extended

/-!
The double a store makes of a numeral. Only the first digits count, and the power of ten is formed and applied in
extended precision, so the result may be a neighbour of the nearest double.
-/

namespace FeedLedger.Binary64

/-- A coefficient from here on takes no more digits. -/
def fullCoefficient : Nat := 922337203685477579

/-- Appends digits to a coefficient until it is full, and counts those appended. -/
def appendDigits (coefficient count : Nat) : List Char → Nat × Nat
  | [] => (coefficient, count)
  | c :: r =>
    if coefficient < fullCoefficient then
      appendDigits (10 * coefficient + (c.toNat - 0x30)) (count + 1) r
    else (coefficient, count)

/-- The number that digits form, or ten thousand where more digits follow one of that size. -/
def boundedExponent (digits : List Char) : Nat :=
  digits.foldl (fun e c => if e < 10000 then 10 * e + (c.toNat - 0x30) else 10000) 0

/-- The coefficient of a numeral's first digits, and the power of ten that belongs to it. -/
def leadingPart (n : Numeral) : Nat × Int :=
  let (coefficient, taken) := appendDigits 0 0 n.whole
  let left := n.whole.length - taken
  let (coefficient, behind) := appendDigits coefficient 0 n.fraction
  (coefficient, Decimal.signed n.exponentNegative (boundedExponent n.exponent) + left - behind)

/-- Moves tens from the exponent to the coefficient while there is room for them. -/
def takeTens (coefficient : Nat) : Nat → Nat × Nat
  | 0 => (coefficient, 0)
  | e + 1 => if 922337203685477580 ≤ coefficient then (coefficient, e + 1) else takeTens (10 * coefficient) e

/-- Cancels tens of the coefficient against a negative exponent. -/
def cancelTens (coefficient : Nat) : Nat → Nat × Nat
  | 0 => (coefficient, 0)
  | e + 1 => if coefficient % 10 = 0 then cancelTens (coefficient / 10) e else (coefficient, e + 1)

def product (x y : Binary64) : Binary64 :=
  match x, y with
  | .finite a m e, .finite b n f =>
    let (num, den) := scaled (m * n) (e + f)
    ofFraction (a != b) num den
  | x, _ => x

def quotient (x y : Binary64) : Binary64 :=
  match x, y with
  | .finite a m e, .finite b n f =>
    let (num, den) := scaled m (e - f)
    ofFraction (a != b) num (den * n)
  | x, _ => x

/-- The largest power of ten that is applied in one step. -/
def largePower : Binary64 := ofScientific false 1 308

/-- `±coefficient · 10 ^ e`, for a positive coefficient. -/
def scaledUp (negative : Bool) (coefficient e : Nat) : Binary64 :=
  let (c, e) := takeTens coefficient e
  let x := Extended.ofNat c
  if e = 0 then ofFraction negative c 1
  else if e ≤ 307 then (x.mul (.powerOfTen e)).toDouble negative
  else if e < 342 then ((x.mul (.powerOfTen (e - 308))).toDouble negative).product largePower
  else .infinite negative

/-- `±coefficient / 10 ^ e`, for a positive coefficient. -/
def scaledDown (negative : Bool) (coefficient e : Nat) : Binary64 :=
  let (c, e) := cancelTens coefficient e
  let x := Extended.ofNat c
  if e = 0 then ofFraction negative c 1
  else if e ≤ 307 then (x.div (.powerOfTen e)).toDouble negative
  else if e < 342 then ((x.div (.powerOfTen (e - 308))).toDouble negative).quotient largePower
  else zero negative

/-- The double a store makes of a numeral. -/
def approximate (n : Numeral) : Binary64 :=
  match leadingPart n with
  | (0, _) => zero n.negative
  | (coefficient, .ofNat e) => scaledUp n.negative coefficient e
  | (coefficient, .negSucc e) => scaledDown n.negative coefficient (e + 1)

end FeedLedger.Binary64
