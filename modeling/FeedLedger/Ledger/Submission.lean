import FeedLedger.Ledger.Basic
import FeedLedger.Turns

namespace FeedLedger

structure Submission where
  stream : Value
  records : List (Except Failure Record)
  offset : Value

namespace Submission

/-- The first failure among the records, which are looked at before any batch is taken in. -/
def sourceFailure? (s : Submission) : Option Failure :=
  s.records.findSome? fun | .error f => some f | .ok _ => none

/-- The name of the turn a batch waits for. Truth values share the turns of zero and one. -/
def turn (s : Submission) : String :=
  match s.stream with
  | .bool b => if b then "1" else "0"
  | v => v.toLiteral

/-- What keeps a batch from waiting for a turn: lists and objects have none. -/
def turnFailure? (s : Submission) : Option Failure :=
  match s.stream with
  | .list _ | .object _ => some (.noTurn s.stream.kindWord)
  | _ => none

/-- Numbered batches in the order they are taken in: the streams take turns, one batch each. -/
def order (batches : List Submission) : List (Submission × Nat) :=
  Turns.order (·.1.turn) batches.zipIdx

end Submission

namespace Ledger

/-- Takes numbered batches in, one after the other. A failed batch does not stop the next one; an interrupt
does. -/
def ingestAll (c : Coordinator) (outages : Outages) :
    List (Submission × Nat) → Ledger → List String → Reply (List (Nat × Except Failure Nat))
  | [], l, inserts => ⟨.ok [], [], l, inserts⟩
  | (s, number) :: rest, l, inserts =>
    let r : Reply Nat :=
      match s.turnFailure? with
      | some f => ⟨.error f, [], l, inserts⟩
      | none => ingest c outages s.stream s.records s.offset l inserts
    match r.result with
    | .error (.raised .interrupt message) => { r with result := .error (.raised .interrupt message) }
    | result =>
      let t := ingestAll c outages rest r.ledger r.inserts
      ⟨t.result.map ((number, result) :: ·), r.events ++ t.events, t.ledger, t.inserts⟩

/-- Hands batches to a pool of workers and answers their results in the order of the batches. The number of
workers may be zero, for the default, but not negative. -/
def submit (c : Coordinator) (outages : Outages) (workers : Int) (batches : List Submission) (l : Ledger) :
    Reply (List (Except Failure Nat)) :=
  match batches.findSome? Submission.sourceFailure? with
  | some f => ⟨.error f, [], l, []⟩
  | none =>
    if workers < 0 then ⟨.error .invalidWorkerCount, [], l, []⟩
    else
      let r := ingestAll c outages (Submission.order batches) l []
      ⟨r.result.map fun results => (Ascending.sort (fun a b => a.1 < b.1) results).map (·.2),
        r.events, r.ledger, r.inserts⟩

end Ledger

end FeedLedger
