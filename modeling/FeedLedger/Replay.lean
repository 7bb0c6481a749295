import FeedLedger.Value.Literal

namespace FeedLedger

/-- Where a consumer starts reading a stream: at an offset, or else at the first retained message. -/
structure ReplayPosition where
  offset : Option Value

/-- Why an offset is no position. -/
inductive ReplayFault
  | negative
  /-- The offset cannot be compared with a number. -/
  | incomparable (kind : String)
  /-- The offset is not a number, so it has no place in the order. -/
  | unordered

namespace ReplayFault

def message : ReplayFault → String
  | negative => "offset must be non-negative"
  | incomparable kind => "'<' not supported between instances of '" ++ kind ++ "' and 'int'"
  | unordered => "[<class 'decimal.InvalidOperation'>]"

end ReplayFault

namespace ReplayPosition

def first : ReplayPosition := ⟨none⟩

/-- The position at an offset. Only its sign is looked at. -/
def at? (offset : Value) : Except ReplayFault ReplayPosition :=
  let position (negative : Bool) := if negative then .error .negative else .ok ⟨some offset⟩
  match offset with
  | .bool _ => position false
  | .int n => position (n < 0)
  | .float (.finite negative significand _) => position (negative && significand ≠ 0)
  | .float (.infinite negative) => position negative
  | .float .nan => position false
  | .decimal (.finite d) => position (d.negative && !d.isZero)
  | .decimal (.infinite negative) => position negative
  | .decimal (.nan ..) => .error .unordered
  | .moment _ => .error (.incomparable "datetime.datetime")
  | v => .error (.incomparable v.kindWord)

/-- The position behind a stored offset. -/
def after (offset : Int) : ReplayPosition := ⟨some (.int (offset + 1))⟩

def isFirst (p : ReplayPosition) : Bool := p.offset.isNone

theorem at?_after {offset : Int} (h : 0 ≤ offset) : at? (.int (offset + 1)) = .ok (after offset) := by
  have : ¬ offset + 1 < 0 := by omega
  simp [at?, after, this]

end ReplayPosition

end FeedLedger
