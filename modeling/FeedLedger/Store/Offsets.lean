import FeedLedger.Decimal.Grouped
import FeedLedger.Store.Basic

namespace FeedLedger

/-- The statement that stores an offset, over one that is stored. -/
def Insert.offsets : Insert :=
  ⟨Catalog.streamOffsets, ["stream_name", "offset"], .update ["stream_name"] ["offset"] true⟩

namespace Cell

/-- The integer that a stored text spells. There is no limit on the number of its digits. -/
def offsetOfText (s : String) : Except OffsetFault Int :=
  match (Decimal.ungrouped? s).bind Decimal.plainInteger? with
  | some n => .ok n
  | none => .error (.notInteger s)

/-- A stored cell as an offset. The table can be written like any other, so that a cell may be no integer; a number loses
its fraction. -/
def toOffset : Cell → Except OffsetFault Int
  | .integer n => .ok n
  | .real (.finite negative significand exponent) =>
    let (n, d) := Binary64.scaled significand exponent
    .ok (Decimal.signed negative (n / d))
  | .real _ => .error .infinite
  | .text s => offsetOfText s
  | _ => .ok 0

end Cell

namespace Store

def offsetParams (stream : Value) (offset : Int) : Params := [("stream_name", stream), ("offset", .int offset)]

/-- The stream of a row of the offsets table, and what is stored for it. -/
def offsetOfRow? (r : Row) : Option (String × Cell) :=
  match r.cell "stream_name" with
  | .text stream => some (stream, r.cell "offset")
  | _ => none

/-- What is stored, in the order the streams were first stored. -/
def offsetEntries (s : Store) : List (String × Cell) :=
  (s.rows Catalog.offsetsTable).filterMap offsetOfRow?

/-- What is stored, by the code points of the streams. -/
def offsetCells (s : Store) : List (String × Cell) :=
  Ascending.sort (fun a b => a.1 < b.1) s.offsetEntries

def offset? (s : Store) (stream : String) : Except OffsetFault (Option Int) :=
  match Keyed.get? stream s.offsetEntries with
  | none => .ok none
  | some cell => cell.toOffset.map some

/-- Entries with their cells as offsets; the first cell that is none counts. -/
def readEntries : List (String × Cell) → Except OffsetFault (List (String × Int))
  | [] => .ok []
  | (stream, cell) :: r =>
    match cell.toOffset, readEntries r with
    | .error f, _ => .error f
    | .ok _, .error f => .error f
    | .ok n, .ok entries => .ok ((stream, n) :: entries)

/-- The stored offsets, by the code points of their streams. -/
def offsets (s : Store) : Except OffsetFault (List (String × Int)) := readEntries s.offsetCells

end Store

end FeedLedger
