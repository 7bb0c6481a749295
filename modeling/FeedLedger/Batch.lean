import FeedLedger.Event
import FeedLedger.Isolation
import FeedLedger.Outage
import FeedLedger.Projection
import FeedLedger.Store.Offsets
import FeedLedger.Writer.Basic

namespace FeedLedger

/-- The schemas and the chunk size that batches are written with, and the connection they use. -/
structure Coordinator where
  schemas : String → Option Schema
  chunkSize : Int
  link : Link

/-- What a transaction has done: the store as it sees it, the tables of the inserts executed so far, the
newest first, and the events reported. -/
structure Work where
  store : Store
  inserts : List String
  events : List Event

namespace Work

def report (w : Work) (e : Event) : Work := { w with events := w.events ++ [e] }

/-- Executes an insert for a chunk of rows, unless there is an outage at it. A chunk with a parameter that its column
does not take is not executed, and not counted. -/
def execute (outages : Outages) (i : Insert) (chunk : List Params) : EStateM Failure Work Unit := fun w =>
  match i.bind chunk with
  | .error f => .error f w
  | .ok bound =>
    let table := i.table.name
    let w := { w with inserts := table :: w.inserts }
    match outages.at? (.insert table (w.inserts.count table)) with
    | some f => .error f w
    | none =>
      match w.store.execute bound with
      | .ok store => .ok () { w with store := store }
      | .error f => .error f w

def send (outages : Outages) (writer : Writer) (chunk : List Params) : EStateM Failure Work Unit := fun w =>
  match w.execute outages writer.statement chunk with
  | .ok _ w => .ok () (w.report (.chunkFlushed writer.schema.table chunk.length))
  | .error f w => .error f w

def storeOffset (outages : Outages) (stream : Value) (offset : Int) : EStateM Failure Work Unit := fun w =>
  match outages.at? .upsert with
  | some f => .error f w
  | none => w.execute outages Insert.offsets [Store.offsetParams stream offset]

end Work

/-- A batch in the making: its work, the writers by table in the order of first use, and the number of malformed
records by table. -/
structure Batch where
  work : Work
  writers : List (String × Writer)
  malformed : List (String × Nat)

namespace Batch

def dialect : String := "sqlite"

/-- The writer of a schema's table: the one the batch has, or a new one. -/
def writerFor (c : Coordinator) (o : BatchOrigin) (b : Batch) (s : Schema) : Except Failure Writer :=
  match Keyed.get? s.table b.writers with
  | some w => .ok w
  | none => Writer.make s dialect c.chunkSize (IngestKey.batchName o.stream o.offset)

def writeValid (c : Coordinator) (outages : Outages) (o : BatchOrigin) (v : ValidRecord) :
    EStateM Failure Batch Unit := fun b =>
  match writerFor c o b v.schema with
  | .error f => .error f b
  | .ok w =>
    match Writer.extend (Work.send outages) v.rows (w, b.work) with
    | .ok _ (w, work) => .ok () { b with work := work, writers := Keyed.put v.schema.table w b.writers }
    | .error f (_, work) => .error f { b with work := work }

def leaveOut (o : BatchOrigin) (m : Malformed) (b : Batch) : Batch :=
  { b with work := b.work.report (.recordMalformed o m), malformed := Keyed.add m.table 1 b.malformed }

def writeRecord (c : Coordinator) (outages : Outages) (o : BatchOrigin) (r : Record) :
    EStateM Failure Batch Unit := fun b =>
  match r.validate (c.schemas r.table) with
  | .error m => .ok () (leaveOut o m b)
  | .ok v => writeValid c outages o v b

/-- Writes records one after the other; in place of a record its source may fail. -/
def writeRecords (c : Coordinator) (outages : Outages) (o : BatchOrigin) :
    List (Except Failure Record) → EStateM Failure Batch Unit
  | [], b => .ok () b
  | .error f :: _, b => .error f b
  | .ok r :: rest, b =>
    match writeRecord c outages o r b with
    | .ok _ b => writeRecords c outages o rest b
    | .error f b => .error f b

def flushWriters (outages : Outages) : List (String × Writer) → EStateM Failure Work (List (String × Writer))
  | [], w => .ok [] w
  | (table, writer) :: rest, w =>
    match Writer.flush (Work.send outages) (writer, w) with
    | .error f (_, w) => .error f w
    | .ok _ (writer, w) =>
      match flushWriters outages rest w with
      | .ok rest w => .ok ((table, writer) :: rest) w
      | .error f w => .error f w

/-- Sends what is pending, and sums the malformed records up. -/
def finish (outages : Outages) (o : BatchOrigin) : EStateM Failure Batch Unit := fun b =>
  match flushWriters outages b.writers b.work with
  | .error f work => .error f { b with work := work }
  | .ok writers work =>
    let work := if b.malformed = [] then work else work.report (.recordsMalformed o b.malformed)
    .ok () { b with work := work, writers := writers }

/-- Writes the records of a batch to the store as its transaction sees it. Nothing is committed here. -/
def write (c : Coordinator) (outages : Outages) (o : BatchOrigin) (records : List (Except Failure Record)) :
    EStateM Failure Batch Unit := fun b =>
  match writeRecords c outages o records b with
  | .ok _ b => finish outages o b
  | .error f b => .error f b

def rowsWritten (writers : List (String × Writer)) : List (String × Nat) :=
  writers.map fun (table, w) => (table, w.rowsWritten)

end Batch

end FeedLedger
