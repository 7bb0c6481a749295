import FeedLedger.Decimal.Numeral

namespace FeedLedger.Decimal

open Text

/-- Whether every underscore stands between two digits. -/
def groupsDigits : List Char → Bool
  | '_' :: _ => false
  | c :: '_' :: d :: r => isDigit c && isDigit d && groupsDigits (d :: r)
  | [_, '_'] => false
  | _ :: r => groupsDigits r
  | [] => true

/-- The characters of a number with ASCII digits and no underscores; none if one stands in the wrong place. White space at
the ends is passed over. -/
def ungrouped? (s : String) : Option (List Char) :=
  let body := (trim isSpace s.toList).map asciiDigit
  if groupsDigits body then some (body.filter (· ≠ '_')) else none

/-- The integer that ASCII digits spell, behind an optional sign. -/
def plainInteger? (s : List Char) : Option Int :=
  let (negative, digits) := splitSign s
  if digits ≠ [] ∧ digits.all isDigit then some (signed negative (natOfDigits digits)) else none

end FeedLedger.Decimal
