import FeedLedger.Decimal.Basic

namespace FeedLedger

/-- A finite double is `±significand · 2 ^ exponent`, with the significand below `2 ^ 53` and the exponent
as small as that allows, but not below `-1074`. -/
inductive Binary64
  | finite (negative : Bool) (significand : Nat) (exponent : Int)
  | infinite (negative : Bool)
  | nan
  deriving DecidableEq

namespace Binary64

def powerOfTwo (n : Nat) : Nat := Nat.pow 2 n

def minExponent : Int := -1074

def maxExponent : Int := 971

def zero (negative : Bool) : Binary64 := .finite negative 0 minExponent

def scaled (n : Nat) : Int → Nat × Nat
  | .ofNat e => (n * powerOfTwo e, 1)
  | .negSucc e => (n, powerOfTwo (e + 1))

/-- `num / den` rounded to an integer, a half to the even neighbour. -/
def roundHalfEven (num den : Nat) : Nat :=
  let q := num / den
  let twice := 2 * (num % den)
  if twice < den then q
  else if den < twice then q + 1
  else q + q % 2

/-- The largest integer `e` with `2 ^ e ≤ num / den`. -/
def floorLog2 (num den : Nat) : Int :=
  let e : Int := (num.log2 : Int) - den.log2
  let (n, d) := scaled num (-e)
  if den * d ≤ n then e else e - 1

/-- The double nearest to `±num / den`, for positive `num` and `den`. -/
def nearest (negative : Bool) (num den : Nat) : Binary64 :=
  let e := max minExponent (floorLog2 num den - 52)
  let (n, d) := scaled num (-e)
  let q := roundHalfEven n (den * d)
  let (q, e) := if q = powerOfTwo 53 then (powerOfTwo 52, e + 1) else (q, e)
  if maxExponent < e then .infinite negative else .finite negative q e

/-- The double nearest to a fraction; infinite from half a step above the largest double on. -/
def ofFraction (negative : Bool) (num den : Nat) : Binary64 :=
  if num = 0 then zero negative else nearest negative num den

/-- The double nearest to `±coefficient · 10 ^ exponent`. Numbers from `10 ^ 310` on are infinite and those below
`10 ^ -330` are zero, so no larger power of ten is formed. -/
def ofScientific (negative : Bool) (coefficient : Nat) (exponent : Int) : Binary64 :=
  let leading := exponent + digitCount coefficient
  if coefficient = 0 then zero negative
  else if 311 < leading then .infinite negative
  else if leading < -330 then zero negative
  else
    match exponent with
    | .ofNat e => nearest negative (coefficient * powerOfTen e) 1
    | .negSucc e => nearest negative coefficient (powerOfTen (e + 1))

def ofDecimal (d : Decimal) : Binary64 := ofScientific d.negative d.coefficient d.exponent

def ofInt (n : Int) : Binary64 := ofFraction (n < 0) n.natAbs 1

/-- The integer nearest to `n` that is a double's value; integers up to `2 ^ 53` are such values. -/
def roundInt (n : Int) : Int :=
  if n.natAbs ≤ powerOfTwo 53 then n
  else
    match ofInt n with
    | .finite negative m e => Decimal.signed negative ((scaled m e).1 / (scaled m e).2)
    | _ => n

def isFinite : Binary64 → Bool
  | .finite .. => true
  | _ => false

/-- Zero has no sign where numbers are stored. -/
def withoutNegativeZero : Binary64 → Binary64
  | .finite true 0 e => .finite false 0 e
  | x => x

theorem roundInt_of_le {n : Int} (h : n.natAbs ≤ powerOfTwo 53) : roundInt n = n := by
  rw [roundInt, if_pos h]

end Binary64

end FeedLedger
