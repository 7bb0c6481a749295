import FeedLedger.Binary64.Basic

/-!
Numbers of extended precision, in which a store computes on the way between texts and doubles: a significand of 64
bits and a power of two without bounds. A result that has no such form is rounded to the nearest number that has, and
to the even neighbour if two are equally near. All numbers here are positive or zero.
-/

namespace FeedLedger

/-- The number `significand · 2 ^ exponent`. -/
structure Extended where
  significand : Nat
  exponent : Int
  deriving DecidableEq

namespace Extended

def fraction (x : Extended) : Nat × Nat := Binary64.scaled x.significand x.exponent

/-- The number nearest to `num / den`, for positive `den`. -/
def nearest (num den : Nat) : Extended :=
  if num = 0 then ⟨0, 0⟩
  else
    let e := Binary64.floorLog2 num den - 63
    let (n, d) := Binary64.scaled num (-e)
    ⟨Binary64.roundHalfEven n (den * d), e⟩

def ofNat (n : Nat) : Extended := nearest n 1

/-- The magnitude of a finite double. -/
def ofDouble : Binary64 → Extended
  | .finite _ significand exponent => ⟨significand, exponent⟩
  | _ => ⟨0, 0⟩

/-- The double nearest to `coefficient · 10 ^ exponent`. -/
def ofScientific (coefficient : Nat) (exponent : Int) : Extended :=
  ofDouble (Binary64.ofScientific false coefficient exponent)

def mul (x y : Extended) : Extended :=
  let (n, d) := Binary64.scaled (x.significand * y.significand) (x.exponent + y.exponent)
  nearest n d

def div (x y : Extended) : Extended :=
  let (n, d) := x.fraction
  let (m, e) := y.fraction
  nearest (n * e) (d * m)

def add (x y : Extended) : Extended :=
  let (n, d) := x.fraction
  let (m, e) := y.fraction
  nearest (n * e + m * d) (d * e)

def atLeast (x y : Extended) : Bool :=
  let (n, d) := x.fraction
  let (m, e) := y.fraction
  m * d ≤ n * e

def floor (x : Extended) : Nat := x.fraction.1 / x.fraction.2

def remainder (x : Extended) : Extended :=
  let (n, d) := x.fraction
  nearest (n % d) d

/-- The nearest double, with a sign. -/
def toDouble (negative : Bool) (x : Extended) : Binary64 :=
  Binary64.ofFraction negative x.fraction.1 x.fraction.2

/-- `result · base ^ n`, by squaring. -/
def mulPower (result base : Extended) (n : Nat) : Extended :=
  if n = 0 then result
  else mulPower (if n % 2 = 1 then result.mul base else result) (base.mul base) (n / 2)

/-- `10 ^ n`, each product on the way rounded. -/
def powerOfTen (n : Nat) : Extended := mulPower (ofNat 1) (ofNat 10) n

end Extended

end FeedLedger
