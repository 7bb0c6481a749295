import FeedLedger.Text.DecimalDigit

namespace FeedLedger

def powerOfTen (n : Nat) : Nat := Nat.pow 10 n

/-- Number of decimal digits; zero has one. -/
def digitCount (n : Nat) : Nat := (Text.digitsOfNat n).length

namespace Decimal

/-- Largest exponent of a decimal's leading digit. -/
def maxAdjusted : Int := 999999999999999999

/-- Smallest exponent of a decimal's last digit. -/
def minExponent : Int := -1999999999999999997

/-- The exponents a coefficient may have. -/
def Within (coefficient : Nat) (exponent : Int) : Prop :=
  minExponent ≤ exponent ∧ exponent + digitCount coefficient ≤ maxAdjusted + 1

instance (c : Nat) (e : Int) : Decidable (Within c e) := inferInstanceAs (Decidable (_ ∧ _))

end Decimal

/-- The number `±coefficient · 10 ^ exponent`, kept as written: `1.50` and `1.5` are equal in value and different as
decimals. -/
structure Decimal where
  negative : Bool
  coefficient : Nat
  exponent : Int
  within : Decimal.Within coefficient exponent
  deriving DecidableEq

namespace Decimal

/-- The decimal of these parts, if its exponent is within the limits. -/
def mk? (negative : Bool) (coefficient : Nat) (exponent : Int) : Option Decimal :=
  if h : Within coefficient exponent then some ⟨negative, coefficient, exponent, h⟩ else none

def isZero (d : Decimal) : Bool := d.coefficient == 0

def signed (negative : Bool) (n : Nat) : Int := if negative then -n else n

/-- The integer a decimal is equal to, if it is one. A coefficient with fewer digits than the exponent
takes away leaves a fraction, so no power of ten beyond the coefficient's length is formed. -/
def toInt? (d : Decimal) : Option Int :=
  if d.coefficient = 0 then some 0
  else
    match d.exponent with
    | .ofNat e => some (signed d.negative (d.coefficient * powerOfTen e))
    | .negSucc e =>
      if digitCount d.coefficient ≤ e + 1 then none
      else if d.coefficient % powerOfTen (e + 1) = 0 then
        some (signed d.negative (d.coefficient / powerOfTen (e + 1)))
      else none

/-- Whether a decimal is equal to one. Only a coefficient with a digit for each place of the exponent can be, so no
power of ten beyond its length is formed. -/
def isOne (d : Decimal) : Bool :=
  match d.exponent with
  | .ofNat 0 => !d.negative && d.coefficient == 1
  | .ofNat (_ + 1) => false
  | .negSucc e => !d.negative && digitCount d.coefficient == e + 2 && d.coefficient == powerOfTen (e + 1)

theorem mk?_eq_some_iff {n : Bool} {c : Nat} {e : Int} {d : Decimal} :
    mk? n c e = some d ↔ d.negative = n ∧ d.coefficient = c ∧ d.exponent = e := by
  unfold mk?
  split
  · simp only [Option.some.injEq]
    constructor
    · rintro rfl; exact ⟨rfl, rfl, rfl⟩
    · rintro ⟨rfl, rfl, rfl⟩; rfl
  · rename_i h
    simp only [reduceCtorEq, false_iff]
    rintro ⟨rfl, rfl, rfl⟩
    exact h d.within

end Decimal

/-- A decimal, or one of the values that are no number. The payload of a not-a-number is the number
written behind it. -/
inductive DecimalValue
  | finite (d : Decimal)
  | infinite (negative : Bool)
  | nan (negative signaling : Bool) (payload : Nat)
  deriving DecidableEq

namespace DecimalValue

def finite? : DecimalValue → Option Decimal
  | .finite d => some d
  | _ => none

end DecimalValue

end FeedLedger
