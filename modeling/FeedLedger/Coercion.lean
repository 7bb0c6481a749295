import FeedLedger.Value.Literal

namespace FeedLedger

open Text

/-- The types a field can be converted to. Timestamps are given in milliseconds since the epoch, epoch
seconds in seconds. -/
inductive FieldType
  | string
  | decimal
  | float
  | integer
  | boolean
  | timestamp
  | epochSeconds
  deriving DecidableEq

namespace FieldType

def all : List FieldType := [string, decimal, float, integer, boolean, timestamp, epochSeconds]

def name : FieldType → String
  | string => "string"
  | decimal => "decimal"
  | float => "float"
  | integer => "integer"
  | boolean => "boolean"
  | timestamp => "timestamp"
  | epochSeconds => "epoch_seconds"

end FieldType

namespace Value

/-- The text a number or a truth value is written as. -/
def scalarChars? : Value → Option (List Char)
  | bool true => some "True".toList
  | bool false => some "False".toList
  | int n => some (digitsOfInt n)
  | float x => some x.toChars
  | decimal d => some d.toChars
  | _ => none

/-- A finite decimal. Integers, doubles and texts are read as numerals, without a limit on the number of their digits;
truth values are no numbers. -/
def toDecimal? : Value → Option Decimal
  | decimal d => d.finite?
  | int n => Decimal.ofChars? (digitsOfInt n)
  | float x => Decimal.ofChars? x.toChars
  | text s => Decimal.ofText? s
  | _ => none

/-- A double: a finite double as it is, everything else through its decimal. -/
def toDouble? : Value → Option Binary64
  | float x => if x.isFinite then some x else none
  | v => v.toDecimal?.map Binary64.ofDecimal

/-- An integer: an integer as it is, everything else if its decimal has no fraction. -/
def toInt? : Value → Option Int
  | int n => some n
  | v => v.toDecimal?.bind Decimal.toInt?

/-- A truth value: of a number whether it is not zero, of a text what it spells. -/
def toBool? : Value → Option Bool
  | bool b => some b
  | text s =>
    let word := (strip s.toList).map Char.toLower
    if word = "true".toList ∨ word = "1".toList then some true
    else if word = "false".toList ∨ word = "0".toList then some false
    else none
  | v => v.toDecimal?.map fun d => !d.isZero

/-- A text that is not blank; numbers and truth values as they are written. -/
def toText? : Value → Option String
  | text s => if strip s.toList = [] then none else some s
  | v => v.scalarChars?.map String.ofList

/-- A moment: one that is given, in universal time unless it has an offset, or so many units after the epoch. -/
def toMoment? (unitMicros : Nat) : Value → Option Moment
  | moment m => some m.withOffset
  | v => v.toInt?.bind fun n => Moment.ofEpoch? (n * unitMicros)

/-- The value as a column of the given type takes it; null if it cannot be converted. -/
def coerce (v : Value) : FieldType → Value
  | .string => ofOption text v.toText?
  | .decimal => ofOption (fun d => decimal (.finite d)) v.toDecimal?
  | .float => ofOption float v.toDouble?
  | .integer => ofOption int v.toInt?
  | .boolean => ofOption bool v.toBool?
  | .timestamp => ofOption moment (v.toMoment? 1000)
  | .epochSeconds => ofOption moment (v.toMoment? 1000000)

@[simp] theorem coerce_null (t : FieldType) : null.coerce t = null := by
  cases t <;> rfl

end Value

end FeedLedger
