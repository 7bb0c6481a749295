import FeedLedger.Binary64.Basic
import FeedLedger.Decimal.Numeral

/-!
The shortest text of a double: the fewest digits that read back as the same double, of those the
nearest, and of two equally near the even ones. From `1e-4` up to below `1e16` the text is positional, with a digit
behind the point.
-/

namespace FeedLedger.Binary64

open Text

/-- `±coefficient · 10 ^ exponent` read as a double. -/
def ofScaled (negative : Bool) (coefficient : Nat) : Int → Binary64
  | .ofNat e => ofFraction negative (coefficient * powerOfTen e) 1
  | .negSucc e => ofFraction negative coefficient (powerOfTen (e + 1))

/-- The number of places before the point: `10 ^ (k - 1) ≤ num / den < 10 ^ k`. -/
def placesBefore (num den : Nat) : Int :=
  let shift : Int := (digitCount den : Int) - digitCount num
  match shift with
  | .ofNat s => if den ≤ num * powerOfTen s then 1 - shift else -shift
  | .negSucc s => if den * powerOfTen (s + 1) ≤ num then 1 - shift else -shift

/-- The value counted in units of `10 ^ unit`, as a fraction. -/
def inUnits (num den : Nat) : Int → Nat × Nat
  | .ofNat u => (num, den * powerOfTen u)
  | .negSucc u => (num * powerOfTen (u + 1), den)

/-- The multiple of `10 ^ unit` that reads back as `x`; if both neighbours do, the one that the value is rounded
to. -/
def onGrid? (x : Binary64) (negative : Bool) (num den : Nat) (unit : Int) : Option (Nat × Int) :=
  let (n, d) := inUnits num den unit
  let below := n / d
  let hit (c : Nat) : Bool := ofScaled negative c unit = x
  if hit below then
    if hit (below + 1) then some (roundHalfEven n d, unit) else some (below, unit)
  else if hit (below + 1) then some (below + 1, unit)
  else none

/-- Searches the grids of `count`, `count + 1`, … digits, up to `fuel` of them. -/
def searchDigits (x : Binary64) (negative : Bool) (num den : Nat) (count : Nat) : Nat → Option (Nat × Int)
  | 0 => none
  | fuel + 1 =>
    match onGrid? x negative num den (placesBefore num den - count) with
    | some hit => some hit
    | none => searchDigits x negative num den (count + 1) fuel

/-- The digits and the exponent of the shortest decimal. Seventeen digits always suffice. -/
def shortest (negative : Bool) (significand : Nat) (exponent : Int) : Nat × Int :=
  if significand = 0 then (0, 0)
  else
    let (num, den) := scaled significand exponent
    (searchDigits (.finite negative significand exponent) negative num den 1 17).getD (0, 0)

def dropTrailingZeros (digits : List Char) : List Char := (digits.reverse.dropWhile (· = '0')).reverse

/-- Lays digits out with the leading one at `10 ^ (place - 1)`. -/
def layout (digits : List Char) (place : Int) : List Char :=
  if -4 < place ∧ place ≤ 16 then
    let body := Decimal.pointed digits place
    if digits.length ≤ place.toNat then body ++ ['.', '0'] else body
  else
    let e := place - 1
    (if digits.length = 1 then digits else Decimal.pointed digits 1) ++
      'e' :: (if e < 0 then '-' else '+') :: padded 2 e.natAbs

def toChars : Binary64 → List Char
  | .finite negative significand exponent =>
    let (c, e) := shortest negative significand exponent
    let all := digitsOfNat c
    let digits := if c = 0 then all else dropTrailingZeros all
    (if negative then ['-'] else []) ++ layout digits (if c = 0 then 1 else e + all.length)
  | .infinite negative => (if negative then ['-'] else []) ++ "inf".toList
  | .nan => "nan".toList

def toText (x : Binary64) : String := String.ofList x.toChars

def ofText? (s : String) : Option Binary64 :=
  match DecimalValue.ofText? s with
  | some (.finite d) => some (ofDecimal d)
  | some (.infinite negative) => some (.infinite negative)
  | some (.nan ..) => some .nan
  | none => none

end FeedLedger.Binary64
