import FeedLedger.Ledger.Submission

namespace FeedLedger

/-- The calls that may write. -/
inductive Call
  | ingest (stream : Value) (records : List (Except Failure Record)) (offset : Value)
  | setOffset (stream offset : Value)
  | submit (workers : Int) (batches : List Submission)
  | createTables (drop : Bool)

inductive Answer
  /-- The number of rows handed to the store. -/
  | rows (count : Nat)
  | done
  | batches (results : List (Except Failure Nat))

namespace Reply

def map {α β : Type} (f : α → β) (r : Reply α) : Reply β := ⟨r.result.map f, r.events, r.ledger, r.inserts⟩

@[simp] theorem ledger_map {α β : Type} (f : α → β) (r : Reply α) : (r.map f).ledger = r.ledger := rfl

end Reply

namespace Call

def run (c : Coordinator) (outages : Outages) (l : Ledger) : Call → Reply Answer
  | ingest stream records offset => (l.ingest c outages stream records offset []).map .rows
  | setOffset stream offset => (l.setOffset c outages stream offset []).map fun _ => .done
  | submit workers batches => (l.submit c outages workers batches).map .batches
  | createTables drop => (l.createTables outages drop).map fun _ => .done

end Call

end FeedLedger
