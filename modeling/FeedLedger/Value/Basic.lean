import FeedLedger.Binary64.Shortest
import FeedLedger.Calendar.Moment

namespace FeedLedger

/-- What a record carries under its keys, before any typing. -/
inductive Value
  | null
  | bool (b : Bool)
  | int (n : Int)
  | float (x : Binary64)
  | text (s : String)
  | decimal (d : DecimalValue)
  | moment (m : Moment)
  | bytes (b : List UInt8)
  | list (items : List Value)
  | tuple (items : List Value)
  | object (members : List (String × Value))
  deriving Inhabited

namespace Value

def isNull : Value → Bool
  | null => true
  | _ => false

/-- Null, false, zero, and what has no characters, items or members. -/
def isEmpty : Value → Bool
  | null => true
  | bool b => !b
  | int n => n = 0
  | float (.finite _ significand _) => significand = 0
  | decimal (.finite d) => d.isZero
  | text s => s = ""
  | bytes b => b = []
  | list items | tuple items => items.isEmpty
  | object members => members.isEmpty
  | _ => false

def items? : Value → Option (List Value)
  | list items | tuple items => some items
  | _ => none

def ofOption {α : Type} (f : α → Value) : Option α → Value
  | some a => f a
  | none => null

end Value

end FeedLedger
