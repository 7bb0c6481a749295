import FeedLedger.Text.Quoted
import FeedLedger.Value.Basic

namespace FeedLedger.Value

open Text

/-- One byte between the given marks. -/
def byteChars (mark : Char) (b : UInt8) : List Char :=
  let c := Char.ofNat b.toNat
  if c = mark ∨ c = '\\' then ['\\', c]
  else if c = '\n' then ['\\', 'n']
  else if c = '\r' then ['\\', 'r']
  else if c = '\t' then ['\\', 't']
  else if 0x20 ≤ b ∧ b < 0x7F then [c]
  else '\\' :: 'x' :: hexDigits 2 b.toNat

def bytesLiteral (bytes : List UInt8) : List Char :=
  let mark := quoteMark (bytes.map fun b => Char.ofNat b.toNat)
  'b' :: mark :: bytes.flatMap (byteChars mark) ++ [mark]

/-- Parts behind one another, with a comma and a space between them. -/
def commaSeparated : List (List Char) → List Char
  | [] => []
  | [part] => part
  | part :: rest => part ++ ',' :: ' ' :: commaSeparated rest

/-- An offset as days and seconds, the days rounded down. -/
def offsetLiteral (offset : Int) : List Char :=
  let days := offset.fdiv Wall.dayMicros
  let rest := (offset.fmod Wall.dayMicros).toNat
  let field (name : String) (n : Int) : List (List Char) :=
    if n = 0 then [] else [name.toList ++ '=' :: digitsOfInt n]
  let fields := field "days" days ++ field "seconds" (rest / 1000000) ++
    field "microseconds" (rest % 1000000)
  "datetime.timedelta(".toList ++ (if fields = [] then ['0'] else commaSeparated fields) ++ [')']

def momentLiteral (m : Moment) : List Char :=
  let w := m.wall
  let fine := if w.microsecond ≠ 0 then [w.second, w.microsecond] else if w.second ≠ 0 then [w.second] else []
  let clock := match m.offset with
    | none => []
    | some 0 => ["tzinfo=datetime.timezone.utc".toList]
    | some offset => ["tzinfo=datetime.timezone(".toList ++ offsetLiteral offset ++ [')']]
  "datetime.datetime(".toList ++
    commaSeparated (([w.year, w.month, w.day, w.hour, w.minute] ++ fine).map digitsOfNat ++ clock) ++ [')']

mutual

/-- A value as messages show it. -/
def literal : Value → List Char
  | null => "None".toList
  | bool true => "True".toList
  | bool false => "False".toList
  | int n => digitsOfInt n
  | float x => x.toChars
  | text s => quoted s.toList
  | decimal d => "Decimal('".toList ++ d.toChars ++ "')".toList
  | moment m => momentLiteral m
  | bytes b => bytesLiteral b
  | list items => '[' :: commaSeparated (literals items) ++ [']']
  | tuple [] => "()".toList
  | tuple [item] => '(' :: literal item ++ ",)".toList
  | tuple items => '(' :: commaSeparated (literals items) ++ [')']
  | object members => '{' :: commaSeparated (memberLiterals members) ++ ['}']

def literals : List Value → List (List Char)
  | [] => []
  | v :: r => literal v :: literals r

def memberLiterals : List (String × Value) → List (List Char)
  | [] => []
  | (key, v) :: r => (quoted key.toList ++ ':' :: ' ' :: literal v) :: memberLiterals r

end

def toLiteral (v : Value) : String := String.ofList v.literal

/-- A value as it stands within a text: a text as it is, a decimal and a moment without the name of their kind. -/
def written : Value → List Char
  | text s => s.toList
  | decimal d => d.toChars
  | moment m => m.toCharsWith ' '
  | v => v.literal

def toWritten (v : Value) : String := String.ofList v.written

@[simp] theorem toWritten_text (s : String) : (text s).toWritten = s := by
  simp [toWritten, written]

/-- The word messages use for the kind of a value. -/
def kindWord : Value → String
  | null => "NoneType"
  | bool _ => "bool"
  | int _ => "int"
  | float _ => "float"
  | text _ => "str"
  | decimal _ => "Decimal"
  | moment _ => "datetime"
  | bytes _ => "bytes"
  | list _ => "list"
  | tuple _ => "tuple"
  | object _ => "dict"

end FeedLedger.Value
