import FeedLedger.IngestKey
import FeedLedger.Store.Bound

namespace FeedLedger

/-- A writer collects the rows of one table and sends them on in chunks of a fixed size. -/
structure Writer where
  schema : Schema
  statement : Insert
  chunkSize : Nat
  /-- The batch that the ingest keys of the rows name. -/
  batch : String
  rowsWritten : Nat
  flushes : Nat
  pending : List Params

namespace Writer

/-- A writer without rows. The chunk size is looked at before the table and the dialect. -/
def make (schema : Schema) (dialect : String) (chunkSize : Int) (batch : String) : Except Failure Writer :=
  if chunkSize ≤ 0 then .error .invalidChunkSize
  else (schema.insert dialect).map fun i => ⟨schema, i, chunkSize.toNat, batch, 0, 0, []⟩

/-- The parameters of a row: its cells under the schema's columns and, where there is no natural key, the
ingest key of its ordinal. -/
def params (schema : Schema) (batch : String) (ordinal : Nat) (row : List Value) : Params :=
  let cells := Keyed.ofPairs (schema.columns.zip row)
  if schema.syntheticKey then
    Keyed.put Schema.ingestKeyColumn (.text (IngestKey.key batch schema.table (.int ordinal))) cells
  else cells

def ordinal (w : Writer) : Nat := w.rowsWritten + w.pending.length

def push (w : Writer) (row : List Value) : Writer :=
  { w with pending := w.pending ++ [params w.schema w.batch w.ordinal row] }

def drop (w : Writer) : Writer := { w with pending := [] }

/-- Counts the pending rows as written. -/
def settle (w : Writer) : Writer :=
  { w.drop with rowsWritten := w.rowsWritten + w.pending.length, flushes := w.flushes + 1 }

variable {σ ε : Type}

/-- Sends the pending rows, if there are any, and answers how many they were. A chunk that cannot be sent is lost, and the
ordinals of its rows are given again. -/
def flush (send : Writer → List Params → EStateM ε σ Unit) : EStateM ε (Writer × σ) Nat := fun (w, s) =>
  if w.pending = [] then .ok 0 (w, s)
  else
    match send w w.pending s with
    | .ok () s => .ok w.pending.length (w.settle, s)
    | .error e s => .error e (w.drop, s)

/-- Takes a row in, and sends the pending rows once they fill a chunk. -/
def add (send : Writer → List Params → EStateM ε σ Unit) (row : List Value) :
    EStateM ε (Writer × σ) Unit := fun (w, s) =>
  let w := w.push row
  if w.chunkSize ≤ w.pending.length then
    match flush send (w, s) with
    | .ok _ t => .ok () t
    | .error e t => .error e t
  else .ok () (w, s)

/-- Takes rows in, one after the other. -/
def extend (send : Writer → List Params → EStateM ε σ Unit) :
    List (List Value) → EStateM ε (Writer × σ) Unit
  | [], t => .ok () t
  | row :: rows, t =>
    match add send row t with
    | .ok _ t => extend send rows t
    | .error e t => .error e t

theorem pending_push (w : Writer) (row : List Value) :
    (w.push row).pending = w.pending ++ [params w.schema w.batch w.ordinal row] := rfl

end Writer

end FeedLedger
