import FeedLedger.Batch

namespace FeedLedger

/-- What a batch's transaction leaves: its result, the store, and what it did on the way. The malformed records
count once all rows have been sent, whatever happens afterwards. -/
structure Settled where
  result : Except Failure (List (String × Nat))
  store : Store
  inserts : List String
  events : List Event
  malformed : List (String × Nat)

namespace Settled

def unbegun (f : Failure) (store : Store) (inserts : List String) : Settled := ⟨.error f, store, inserts, [], []⟩

/-- The store after a rollback: a transaction of its own leaves nothing behind. -/
def undone (level : String) (before current : Store) : Store :=
  if level = Link.autocommit then current else before

/-- A failed batch whose transaction is still open, and is rolled back. If that fails too, a database fault is
only reported; any other failure comes out in place of the batch's. -/
def rolledBack (outages : Outages) (o : BatchOrigin) (level : String) (phase : BatchPhase) (f : Failure)
    (before : Store) (w : Work) (malformed : List (String × Nat)) : Settled :=
  let store := undone level before w.store
  match outages.at? .rollback with
  | none => ⟨.error f, store, w.inserts, w.events ++ [.ingestRolledBack o phase f], malformed⟩
  | some (.database fault) =>
    ⟨.error f, store, w.inserts, w.events ++ [.rollbackFailed o fault, .ingestRolledBack o phase f], malformed⟩
  | some g => ⟨.error g, store, w.inserts, w.events, malformed⟩

/-- Commits. An outage of the commit is assumed to have ended the transaction, so that nothing is left to roll back. A
commit that the database refuses because it is busy would leave the transaction open; that is not modelled. -/
def committed (outages : Outages) (o : BatchOrigin) (level : String) (before : Store) (b : Batch) (w : Work) :
    Settled :=
  match outages.at? .commit with
  | some f =>
    ⟨.error f, undone level before w.store, w.inserts, w.events ++ [.ingestRolledBack o .offsetWriting f],
      b.malformed⟩
  | none => ⟨.ok (Batch.rowsWritten b.writers), w.store, w.inserts, w.events, b.malformed⟩

/-- Runs a batch on an open connection whose transactions have the given level. -/
def ofBatch (c : Coordinator) (outages : Outages) (o : BatchOrigin) (level : String)
    (records : List (Except Failure Record)) (before : Store) (inserts : List String) : Settled :=
  match Batch.write c outages o records ⟨⟨before, inserts, []⟩, [], []⟩ with
  | .error f b => rolledBack outages o level .writing f before b.work []
  | .ok _ b =>
    match b.work.storeOffset outages o.stream o.offset with
    | .error f w => rolledBack outages o level .offsetWriting f before w b.malformed
    | .ok _ w => committed outages o level before b w

/-- Takes a connection and runs a batch on it, outside of the autocommit level. -/
def run (c : Coordinator) (outages : Outages) (o : BatchOrigin) (records : List (Except Failure Record))
    (before : Store) (inserts : List String) : Settled :=
  match outages.at? .connect with
  | some f => unbegun f before inserts
  | none =>
    match c.link.initialLevel.2 with
    | .error f => unbegun f before inserts
    | .ok level => ofBatch c outages o (c.link.bodyLevel level) records before inserts

end Settled

end FeedLedger
