import FeedLedger.Binary64.Shortest
import FeedLedger.Decimal.Grouped

namespace FeedLedger.Binary64

def ofNumeral (n : Numeral) : Binary64 := ofScientific n.negative n.coefficient n.scale

/-- The number of a text without blanks and underscores: a numeral, or the name of an infinity or of not-a-number in any
case. -/
def ofSpelling? (s : List Char) : Option Binary64 :=
  match Numeral.ofChars? s with
  | some n => some (ofNumeral n)
  | none =>
    let (negative, body) := Decimal.splitSign s
    let word := String.ofList (body.map Char.toLower)
    if word = "inf" ∨ word = "infinity" then some (.infinite negative)
    else if word = "nan" then some .nan
    else none

/-- The number a text spells, with grouped digits or without. -/
def ofSpelled? (s : String) : Option Binary64 := (Decimal.ungrouped? s).bind ofSpelling?

end FeedLedger.Binary64
