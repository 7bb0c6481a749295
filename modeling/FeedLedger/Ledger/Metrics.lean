import FeedLedger.Binary64.Basic
import FeedLedger.Keyed

namespace FeedLedger

/-- Counters and gauges. A label that was never touched is absent. -/
structure Metrics where
  /-- Committed rows by table. -/
  rowsWritten : List (String × Nat)
  /-- Malformed records by table. -/
  malformed : List (String × Nat)
  /-- Timed batches by stream. -/
  batches : List (String × Nat)
  /-- Whether the last batch of a stream was committed. -/
  status : List (String × Bool)
  /-- The last committed offset of a stream, as the double nearest to it. -/
  committedOffset : List (String × Int)
  deriving DecidableEq

namespace Metrics

def fresh : Metrics := ⟨[], [], [], [], []⟩

def timed (m : Metrics) (stream : String) : Metrics := { m with batches := Keyed.add stream 1 m.batches }

def addMalformed (m : Metrics) (counts : List (String × Nat)) : Metrics :=
  { m with malformed := Keyed.addAll counts m.malformed }

def addRows (m : Metrics) (counts : List (String × Nat)) : Metrics :=
  { m with rowsWritten := Keyed.addAll counts m.rowsWritten }

def setStatus (m : Metrics) (stream : String) (committed : Bool) : Metrics :=
  { m with status := Keyed.put stream committed m.status }

def setOffset (m : Metrics) (stream : String) (offset : Int) : Metrics :=
  { m with committedOffset := Keyed.put stream (Binary64.roundInt offset) m.committedOffset }

end Metrics

end FeedLedger
