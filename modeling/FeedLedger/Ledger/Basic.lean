import FeedLedger.Ledger.Metrics
import FeedLedger.Replay
import FeedLedger.Transaction

namespace FeedLedger

/-- The store with its metrics. -/
structure Ledger where
  store : Store
  metrics : Metrics

/-- What a call leaves: its result, the events it reported, the ledger, and the tables of the inserts executed so
far, the newest first. -/
structure Reply (α : Type) where
  result : Except Failure α
  events : List Event
  ledger : Ledger
  inserts : List String

namespace Ledger

def fresh : Ledger := ⟨.empty, .fresh⟩

/-- A stream is named by a value that is not empty and not zero, commonly a text, and an offset is an integer that is
not negative. The stream is looked at first. -/
def checkArguments (stream offset : Value) : Except Failure BatchOrigin :=
  if stream.isEmpty then .error .emptyStream
  else
    match offset with
    | .int n => if 0 ≤ n then .ok ⟨stream, n⟩ else .error (.invalidOffset offset)
    | _ => .error (.invalidOffset offset)

/-- The metrics after a batch. Only an interrupt leaves the status of its stream alone. -/
def batchMetrics (m : Metrics) (o : BatchOrigin) (s : Settled) : Metrics :=
  let m := (m.addMalformed s.malformed).timed o.label
  match s.result with
  | .ok rows => ((m.addRows rows).setStatus o.label true).setOffset o.label o.offset
  | .error f => if f.isInterrupt then m else m.setStatus o.label false

def total : List (String × Nat) → Nat
  | [] => 0
  | (_, count) :: rest => count + total rest

/-- Takes a batch of records in, together with the offset that follows it. Answers the number of rows handed to
the store, skipped ones included. -/
def ingest (c : Coordinator) (outages : Outages) (stream : Value) (records : List (Except Failure Record))
    (offset : Value) (l : Ledger) (inserts : List String) : Reply Nat :=
  match checkArguments stream offset with
  | .error f => ⟨.error f, [], l, inserts⟩
  | .ok o =>
    let s := Settled.run c outages o records l.store inserts
    let after : Ledger := ⟨s.store, batchMetrics l.metrics o s⟩
    match s.result with
    | .ok rows =>
      ⟨.ok (total rows), s.events ++ [.ingestCommitted o (total rows) (Ascending.texts (Keyed.keys rows))],
        after, s.inserts⟩
    | .error f => ⟨.error (f.during (.persistBatch o.stream o.offset)), s.events, after, s.inserts⟩

/-- Stores an offset in a transaction of its own. If that fails and the rollback fails too, the rollback's failure
comes out. -/
def storeOffset (c : Coordinator) (outages : Outages) (o : BatchOrigin) (before : Store) (inserts : List String) :
    Except Failure Store × List String :=
  match outages.at? .connect with
  | some f => (.error f, inserts)
  | none =>
    match c.link.initialLevel.2 with
    | .error f => (.error f, inserts)
    | .ok _ =>
      match Work.storeOffset outages o.stream o.offset ⟨before, inserts, []⟩ with
      | .error f w => (.error ((outages.at? .rollback).getD f), w.inserts)
      | .ok _ w =>
        match outages.at? .commit with
        | some f => (.error f, w.inserts)
        | none => (.ok w.store, w.inserts)

/-- Sets the offset of a stream outside of any batch. -/
def setOffset (c : Coordinator) (outages : Outages) (stream offset : Value) (l : Ledger) (inserts : List String) :
    Reply Unit :=
  match checkArguments stream offset with
  | .error f => ⟨.error f, [], l, inserts⟩
  | .ok o =>
    match storeOffset c outages o l.store inserts with
    | (.error f, inserts) => ⟨.error (f.during (.storeOffset o.stream o.offset)), [], l, inserts⟩
    | (.ok store, inserts) =>
      ⟨.ok (), [.offsetStored o.stream o.offset], ⟨store, l.metrics.setOffset o.label o.offset⟩, inserts⟩

/-- Reads from the store on a connection; its transaction ends with a rollback, whether the reading succeeds or
not. -/
def readStore {α : Type} (outages : Outages) (p : OutagePoint) (read : Store → Except Failure α) (l : Ledger) :
    Except Failure α :=
  match outages.at? .connect, outages.at? p, outages.at? .rollback with
  | some f, _, _ | none, some f, _ | none, none, some f => .error f
  | none, none, none => read l.store

/-- The offset stored for a stream, which is looked up by the text that its column makes of it. -/
def lookUp (stream : Value) (s : Store) : Except Failure (Option Int) :=
  match Binding.forText stream with
  | .cell (.text name) => (s.offset? name).mapError .storedOffset
  | .cell _ => .ok none
  | .tooLarge => .error .integerTooLarge
  | .unsupported => .error (.database .unsupported)
  | .refused => .error (.database .parameter)

def getOffset (outages : Outages) (stream : Value) (l : Ledger) : Except Failure (Option Int) :=
  (readStore outages .get (lookUp stream) l).mapError (·.during (.readOffset stream))

def listOffsets (outages : Outages) (l : Ledger) : Except Failure (List (String × Int)) :=
  (readStore outages .listOffsets (·.offsets.mapError .storedOffset) l).mapError (·.during .listOffsets)

/-- Where to resume a stream: behind its stored offset, and at the first message if there is none or it cannot be
looked up. -/
def resume (outages : Outages) (stream : Value) (l : Ledger) : Except Failure ReplayPosition × List Event :=
  match getOffset outages stream l with
  | .error f =>
    if f.isInterrupt then (.error f, []) else (.ok .first, [.offsetLookupFailed stream f])
  | .ok none => (.ok .first, [.resumeFromFirst stream])
  | .ok (some n) => ((ReplayPosition.at? (.int (n + 1))).mapError .replay, [.resumeFromOffset stream (n + 1)])

/-- Makes the tables that are missing, all of them anew if the existing ones are dropped. Tables are dropped and made
at once, so a commit that fails brings nothing back. -/
def createTables (outages : Outages) (drop : Bool) (l : Ledger) : Reply Unit :=
  let after : Ledger := { l with store := if drop then .empty else l.store }
  match outages.at? .connect, outages.at? .commit with
  | some f, _ => ⟨.error f, [], l, []⟩
  | none, some f => ⟨.error f, [], after, []⟩
  | none, none => ⟨.ok (), [.tablesCreated Catalog.tables.length drop], after, []⟩

/-- The level of a newly taken connection. -/
def isolation (c : Coordinator) (outages : Outages) : Except Failure String :=
  match outages.at? .connect with
  | some f => .error f
  | none => c.link.initialLevel.2

def tableRows (columns : List String) (t : Table) (l : Ledger) : List (List Cell) :=
  (l.store.numberedRows t).map fun r => columns.map r.cell

end Ledger

namespace Coordinator

def defaultChunkSize : Int := 1000

/-- A coordinator; a chunk size of zero counts as none. -/
def make (schemas : String → Option Schema) (chunkSize : Int) (link : Link) : Coordinator :=
  ⟨schemas, if chunkSize = 0 then defaultChunkSize else chunkSize, link⟩

end Coordinator

end FeedLedger
