import FeedLedger.Failure

namespace FeedLedger

inductive OutagePoint
  | connect
  | upsert
  | get
  | listOffsets
  /-- The insert with this number, counted from one, into this table. -/
  | insert (table : String) (number : Nat)
  /-- A commit that fails and ends its transaction. -/
  | commit
  /-- Rolling a transaction back. A transaction that only reads ends this way too. -/
  | rollback
  deriving DecidableEq

/-- A point at which the connection or the store fails during a call, and what it fails with. -/
structure Outage where
  point : OutagePoint
  failure : Failure

abbrev Outages := List Outage

namespace Outages

def at? (outages : Outages) (p : OutagePoint) : Option Failure :=
  (outages.find? (·.point = p)).map (·.failure)

@[simp] theorem at?_nil (p : OutagePoint) : at? [] p = none := rfl

end Outages

end FeedLedger
