import FeedLedger.Binary64.Approximate
import FeedLedger.Binary64.Rounded
import FeedLedger.Binary64.Spelled
import FeedLedger.Table.Basic
import FeedLedger.Value.Basic

namespace FeedLedger

inductive Cell
  | null
  | integer (n : Int)
  | real (x : Binary64)
  | text (s : String)
  | boolean (b : Bool)
  | wall (w : Wall)
  /-- The time of writing, which is not followed up. -/
  | clock
  deriving DecidableEq

inductive Binding
  | cell (c : Cell)
  /-- The column's type does not take the value. -/
  | refused
  /-- The database has no type for the value. -/
  | unsupported
  /-- An integer beyond 64 bits. -/
  | tooLarge
  deriving DecidableEq

namespace Binding

open Text

def least : Int := -9223372036854775808

def greatest : Int := 9223372036854775807

def Fits (n : Int) : Prop := least ≤ n ∧ n ≤ greatest

instance (n : Int) : Decidable (Fits n) := inferInstanceAs (Decidable (_ ∧ _))

/-- Hands over an integer, as the cell that `f` makes of it. -/
def fitting (n : Int) (f : Int → Cell) : Binding := if Fits n then cell (f n) else tooLarge

/-- A stored double: not-a-number is null, and zero has no sign. -/
def double : Binary64 → Cell
  | .nan => .null
  | x => .real x.withoutNegativeZero

/-- The text of a double in a text column. -/
def doubleText : Binary64 → Cell
  | .nan => .null
  | .infinite negative => .text (if negative then "-Inf" else "Inf")
  | .finite negative significand exponent =>
    .text (String.ofList (Binary64.roundedChars negative significand exponent))

/-- A double in an integer column: an integer if it is one and not at an end of the 64 bits. -/
def doubleInteger (x : Binary64) : Cell :=
  match x with
  | .finite negative significand exponent =>
    let (n, d) := Binary64.scaled significand exponent
    let k := Decimal.signed negative (n / d)
    if n % d = 0 ∧ least < k ∧ k < greatest then .integer k else double x
  | _ => double x

/-- A text in an integer column: a number if it is a numeral, between ASCII blanks. Integers of 64 bits are kept
exactly. -/
def textInteger (s : String) : Cell :=
  let body := trim (fun c => c.toNat < 128 && isSpace c) s.toList
  match (Decimal.plainInteger? body).filter fun n => Fits n, Numeral.ofChars? body with
  | some n, _ => .integer n
  | none, some n => doubleInteger (Binary64.approximate n)
  | none, none => .text s

def forText : Value → Binding
  | .null => cell .null
  | .text s => cell (.text s)
  | .bool b => cell (.text (if b then "1" else "0"))
  | .int n => fitting n fun n => .text (ofInt n)
  | .float x => cell (doubleText x)
  | .moment m => cell (.text (String.ofList (m.toCharsWith ' ')))
  | _ => unsupported

def forInteger : Value → Binding
  | .null => cell .null
  | .int n => fitting n .integer
  | .bool b => cell (.integer (if b then 1 else 0))
  | .float x => cell (doubleInteger x)
  | .text s => cell (textInteger s)
  | .moment m => cell (.text (String.ofList (m.toCharsWith ' ')))
  | _ => unsupported

/-- A moment is kept as what its clock shows, without the offset. -/
def forTimestamp : Value → Binding
  | .null => cell .null
  | .moment m => cell (.wall m.wall)
  | _ => refused

/-- Numbers become the nearest double; a text has to spell a number. -/
def forDouble : Value → Binding
  | .null => cell .null
  | .float x => cell (double x)
  | .decimal (.finite d) => cell (double (Binary64.ofDecimal d))
  | .decimal (.infinite negative) => cell (double (.infinite negative))
  | .decimal (.nan _ false _) => cell .null
  | .bool b => cell (double (Binary64.ofInt (if b then 1 else 0)))
  | .int n =>
    let x := Binary64.ofInt n
    if x.isFinite then cell (double x) else refused
  | .text s =>
    match Binary64.ofSpelled? s with
    | some x => cell (double x)
    | none => refused
  | _ => refused

/-- Numbers equal to zero or one stand for truth values. -/
def forBoolean : Value → Binding
  | .null => cell .null
  | .bool b => cell (.boolean b)
  | .int 0 => cell (.boolean false)
  | .int 1 => cell (.boolean true)
  | .float x =>
    match doubleInteger x with
    | .integer 0 => cell (.boolean false)
    | .integer 1 => cell (.boolean true)
    | _ => refused
  | .decimal (.finite d) =>
    if d.isZero then cell (.boolean false)
    else if d.isOne then cell (.boolean true)
    else refused
  | _ => refused

end Binding

namespace ColumnType

def bind (type : ColumnType) (v : Value) : Binding :=
  match type with
  | text | shortText _ => Binding.forText v
  | rowNumber | integer | bigInteger => Binding.forInteger v
  | timestamp => Binding.forTimestamp v
  | price | double => Binding.forDouble v
  | boolean => Binding.forBoolean v

@[simp] theorem bind_null (type : ColumnType) : type.bind .null = .cell .null := by
  cases type <;> rfl

end ColumnType

end FeedLedger
