import FeedLedger.Keyed
import FeedLedger.Text.Utf8
import FeedLedger.Value.Literal

namespace FeedLedger

/-- A target table and a bag of decoded values. -/
structure Record where
  table : String
  data : List (String × Value)

namespace Record

/-- The value under a key, or the given one if the key is absent. -/
def get (r : Record) (key : String) (fallback : Value) : Value := (Keyed.get? key r.data).getD fallback

def value (r : Record) (key : String) : Value := r.get key .null

end Record

/-- What is wrong with one member of a record. -/
inductive MemberFault
  | missing
  | notText
  | notUtf8
  | notObject
  deriving DecidableEq

namespace MemberFault

def code : MemberFault → String
  | missing => "missing"
  | notText => "string_type"
  | notUtf8 => "string_unicode"
  | notObject => "dict_type"

def sentence : MemberFault → String
  | missing => "Field required"
  | notText => "Input should be a valid string"
  | notUtf8 => "Input should be a valid string, unable to parse raw data as a unicode string"
  | notObject => "Input should be a valid dictionary"

end MemberFault

/-- A fault with the member it was found at and the value it was found in. -/
structure RecordFault where
  member : String
  fault : MemberFault
  input : Value

namespace RecordFault

/-- A text of more than fifty bytes, cut to its first 25 and last 24 bytes, or as many of them as whole
characters allow. -/
def abridged (s : String) : String :=
  let rec fitting (room : Nat) : List Char → List Char
    | [] => []
    | c :: r => if c.utf8Size ≤ room then c :: fitting (room - c.utf8Size) r else []
  let cs := s.toList
  if 50 < s.utf8ByteSize then
    String.ofList (fitting 25 cs ++ ['.', '.', '.'] ++ (fitting 24 cs.reverse).reverse)
  else s

/-- The lines that describe a fault; `guide` is where the faults are explained. -/
def lines (guide : String) (f : RecordFault) : String :=
  f.member ++ "\n  " ++ f.fault.sentence ++ " [type=" ++ f.fault.code ++ ", input_value=" ++
    abridged f.input.toLiteral ++ ", input_type=" ++ f.input.kindWord ++
    "]\n    For further information visit " ++ guide ++ f.fault.code

/-- The message for all faults of a record. -/
def report (guide : String) (faults : List RecordFault) : String :=
  Text.ofNat faults.length ++ " validation error" ++ (if faults.length = 1 then "" else "s") ++
    " for Record" ++ String.join (faults.map fun f => "\n" ++ f.lines guide)

end RecordFault

namespace Record

/-- The table's name: a text, or bytes that are one. -/
def tableOf (members : List (String × Value)) : Except RecordFault String :=
  match Keyed.get? "table" members with
  | none => .error ⟨"table", .missing, .object members⟩
  | some (.text s) => .ok s
  | some (.bytes b) =>
    match Text.ofUtf8? b with
    | some s => .ok s
    | none => .error ⟨"table", .notUtf8, .bytes b⟩
  | some v => .error ⟨"table", .notText, v⟩

/-- The data: an object, empty if it is absent. -/
def dataOf (members : List (String × Value)) : Except RecordFault (List (String × Value)) :=
  match Keyed.get? "data" members with
  | none => .ok []
  | some (.object data) => .ok data
  | some v => .error ⟨"data", .notObject, v⟩

/-- Makes a record of named members; members of other names are passed over. -/
def ofMembers (members : List (String × Value)) : Except (List RecordFault) Record :=
  match tableOf members, dataOf members with
  | .ok table, .ok data => .ok ⟨table, data⟩
  | .ok _, .error f => .error [f]
  | .error f, .ok _ => .error [f]
  | .error f, .error g => .error [f, g]

end Record

end FeedLedger
