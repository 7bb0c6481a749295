import FeedLedger.Binary64.Spelled

/-!
The texts of settings: truth values, integers and numbers.

An integer has a plain form, with a minus or no sign and without leading zeros. Besides, blanks are allowed around it,
a plus, leading zeros, underscores between digits, and a fraction of zeros; a minus may stand behind leading zeros too.
-/

namespace FeedLedger

/-- What is wrong with a setting. -/
inductive SettingFault
  | missing
  | notBoolean
  | notInteger
  /-- An integer with more digits than are read. -/
  | tooLong
  | notNumber
  deriving DecidableEq

namespace SettingFault

def code : SettingFault → String
  | missing => "missing"
  | notBoolean => "bool_parsing"
  | notInteger => "int_parsing"
  | tooLong => "int_parsing_size"
  | notNumber => "float_parsing"

end SettingFault

namespace Setting

open Text

/-- The words for true and false, in lower case. -/
def trueWords : List String := ["1", "true", "t", "yes", "y", "on"]

def falseWords : List String := ["0", "false", "f", "no", "n", "off"]

def readBool (s : String) : Except SettingFault Bool :=
  let word := String.ofList (s.toList.map Char.toLower)
  if trueWords.contains word then .ok true
  else if falseWords.contains word then .ok false
  else .error .notBoolean

/-- The greatest number of digits of an integer. -/
def maxDigits : Nat := 4300

def splitMinus : List Char → Bool × List Char
  | '-' :: r => (true, r)
  | s => (false, s)

/-- An integer in its plain form: a minus or no sign, and digits that do not begin with a zero, or a zero alone. Too
many digits are noticed before what stands behind them. -/
def plainInt (s : List Char) : Except SettingFault Int :=
  let (negative, body) := splitMinus s
  let digits := body.takeWhile isDigit
  if body = ['0'] then .ok 0
  else if digits.head? = none ∨ digits.head? = some '0' then .error .notInteger
  else if maxDigits < digits.length then .error .tooLong
  else if digits = body then .ok (Decimal.signed negative (natOfDigits digits))
  else .error .notInteger

/-- Passes over zeros and underscores up to another digit or a minus. The last character passed over stays before a
point and at the end. -/
def afterZeros (last : Char) : List Char → Option (List Char)
  | [] => some [last]
  | c :: r =>
    if c = '0' ∨ c = '_' then afterZeros c r
    else if c = '-' ∨ isDigit c then some (c :: r)
    else if c = '.' then some (last :: c :: r)
    else none

/-- Drops leading zeros. What begins with neither a digit nor a minus is no number. -/
def withoutLeadingZeros? : List Char → Option (List Char)
  | [] => none
  | c :: r => if c = '0' then afterZeros c r else if c = '-' ∨ isDigit c then some (c :: r) else none

/-- Drops a point with zeros behind it; a point with nothing behind it stays. -/
def withoutZeroFraction (s : List Char) : List Char :=
  let fraction := (s.dropWhile (· ≠ '.')).drop 1
  if fraction ≠ [] ∧ fraction.all (· = '0') then s.takeWhile (· ≠ '.') else s

/-- Whether underscores stand single and not at the end. -/
def singlyGrouped : List Char → Bool
  | [] => true
  | ['_'] => false
  | '_' :: '_' :: _ => false
  | _ :: r => singlyGrouped r

/-- Drops underscores that stand single and inside. -/
def withoutUnderscores (s : List Char) : List Char :=
  if singlyGrouped ('_' :: s) then s.filter (· ≠ '_') else s

/-- Drops a plus that no minus follows. -/
def withoutPlus? : List Char → Option (List Char)
  | '+' :: '-' :: _ => none
  | '+' :: r => some r
  | s => some s

/-- Drops leading zeros behind a minus or no sign. -/
def withSignKept? (s : List Char) : Option (List Char) :=
  let (negative, body) := splitMinus s
  (withoutLeadingZeros? body).map fun rest => if negative then '-' :: rest else rest

/-- The plain form of an integer with blanks around it, a plus, leading zeros, underscores, or a fraction of
zeros. -/
def plainForm? (s : List Char) : Option (List Char) :=
  ((withoutPlus? (trim isSpace s)).bind withSignKept?).map fun s => withoutUnderscores (withoutZeroFraction s)

/-- An integer, in its plain form or not. One with too many digits is told from other texts only if it begins with
its plain form. -/
def readInt (s : String) : Except SettingFault Int :=
  match plainInt s.toList with
  | .ok n => .ok n
  | .error .tooLong => .error .tooLong
  | .error f =>
    match (plainForm? s.toList).map plainInt with
    | some (.ok n) => .ok n
    | _ => .error f

/-- A number; with underscores in it, blanks around it are not allowed. -/
def readDouble (s : String) : Except SettingFault Binary64 :=
  let given := s.toList
  match (Binary64.ofSpelling? (trim isSpace given)).or (Binary64.ofSpelling? (withoutUnderscores given)) with
  | some x => .ok x
  | none => .error .notNumber

end Setting

end FeedLedger
