import FeedLedger.Decimal.Basic
import FeedLedger.Text.Blank

/-!
The written form of decimals.

A numeral is an optional sign, digits with at most one point and at least one digit, and an optional
exponent. Blanks at the ends and underscores anywhere are passed over, and a digit of any script counts.
Writing is positional while the exponent is at most zero and the leading digit stands no further right
than the sixth place behind the point, and in exponent form otherwise.
-/

namespace FeedLedger

open Text

namespace Decimal

/-- The characters of a numeral that count, with ASCII digits. -/
def significant (s : List Char) : List Char :=
  ((strip s).filter (· ≠ '_')).map asciiDigit

def splitSign : List Char → Bool × List Char
  | '-' :: r => (true, r)
  | '+' :: r => (false, r)
  | r => (false, r)

def splitDigits (s : List Char) : List Char × List Char := (s.takeWhile isDigit, s.dropWhile isDigit)

/-- The digits before the point, those behind it, and what follows them. -/
def splitPoint (s : List Char) : List Char × List Char × List Char :=
  let (whole, rest) := splitDigits s
  match rest with
  | '.' :: r => (whole, splitDigits r)
  | r => (whole, [], r)

/-- The sign and the digits of the exponent; there are no digits if there is no exponent. -/
def splitExponent? : List Char → Option (Bool × List Char)
  | [] => some (false, [])
  | c :: r =>
    if c = 'e' ∨ c = 'E' then
      let (negative, digits) := splitSign r
      if digits ≠ [] ∧ digits.all isDigit then some (negative, digits) else none
    else none

end Decimal

/-- The parts of a numeral: the digits before the point, behind it, and of the exponent. -/
structure Numeral where
  negative : Bool
  whole : List Char
  fraction : List Char
  exponentNegative : Bool
  exponent : List Char
  deriving DecidableEq

namespace Numeral

def ofChars? (s : List Char) : Option Numeral :=
  let (negative, body) := Decimal.splitSign s
  let (whole, fraction, rest) := Decimal.splitPoint body
  if whole ++ fraction = [] then none
  else (Decimal.splitExponent? rest).map fun (exponentNegative, exponent) =>
    ⟨negative, whole, fraction, exponentNegative, exponent⟩

/-- The number that all digits form. -/
def coefficient (n : Numeral) : Nat := natOfDigits (n.whole ++ n.fraction)

/-- The power of ten the coefficient is multiplied by. -/
def scale (n : Numeral) : Int :=
  Decimal.signed n.exponentNegative (natOfDigits n.exponent) - n.fraction.length

end Numeral

namespace Decimal

def ofSignificant? (s : List Char) : Option Decimal :=
  (Numeral.ofChars? s).bind fun n => mk? n.negative n.coefficient n.scale

/-- Reads a numeral. The value is exact: the coefficient is formed by all digits written. -/
def ofChars? (s : List Char) : Option Decimal := ofSignificant? (significant s)

def ofText? (s : String) : Option Decimal := ofChars? s.toList

/-- Digits with a point behind the first `place` of them; zeros fill the gap to a point outside. -/
def pointed (digits : List Char) (place : Int) : List Char :=
  if place ≤ 0 then '0' :: '.' :: List.replicate (-place).toNat '0' ++ digits
  else if digits.length ≤ place.toNat then
    digits ++ List.replicate (place.toNat - digits.length) '0'
  else digits.take place.toNat ++ '.' :: digits.drop place.toNat

def exponentMark (e : Int) : List Char :=
  'E' :: (if e < 0 then '-' else '+') :: digitsOfNat e.natAbs

def magnitudeChars (coefficient : Nat) (exponent : Int) : List Char :=
  let digits := digitsOfNat coefficient
  let leading := exponent + digits.length
  if exponent ≤ 0 ∧ -6 < leading then pointed digits leading
  else pointed digits 1 ++ exponentMark (leading - 1)

def toChars (d : Decimal) : List Char :=
  (if d.negative then ['-'] else []) ++ magnitudeChars d.coefficient d.exponent

def toText (d : Decimal) : String := String.ofList d.toChars

end Decimal

namespace DecimalValue

open Decimal

/-- The payload behind a not-a-number. -/
def payload? (digits : List Char) : Option Nat :=
  if digits.all isDigit then some (natOfDigits digits) else none

/-- Reads the name of a value that is no number. -/
def named? (negative : Bool) : List Char → Option DecimalValue
  | ['i', 'n', 'f'] => some (.infinite negative)
  | ['i', 'n', 'f', 'i', 'n', 'i', 't', 'y'] => some (.infinite negative)
  | 'n' :: 'a' :: 'n' :: r => (payload? r).map (.nan negative false)
  | 's' :: 'n' :: 'a' :: 'n' :: r => (payload? r).map (.nan negative true)
  | _ => none

/-- Reads a numeral or the name of a value that is no number, in any case. -/
def ofText? (s : String) : Option DecimalValue :=
  match Decimal.ofText? s with
  | some d => some (.finite d)
  | none =>
    let (negative, body) := splitSign (significant s.toList)
    named? negative (body.map Char.toLower)

def toChars : DecimalValue → List Char
  | .finite d => d.toChars
  | .infinite negative => (if negative then ['-'] else []) ++ "Infinity".toList
  | .nan negative signaling payload =>
    (if negative then ['-'] else []) ++ (if signaling then ['s'] else []) ++ "NaN".toList ++
      (if payload = 0 then [] else digitsOfNat payload)

def toText (v : DecimalValue) : String := String.ofList v.toChars

end DecimalValue

end FeedLedger
