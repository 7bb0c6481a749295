import FeedLedger.Writer.Basic

namespace FeedLedger

/-- The calls a connection has taken so far, and the chunks of those that succeeded, the newest first. -/
structure Recorder where
  failing : List Nat
  calls : Nat
  chunks : List (List Params)

namespace Recorder

/-- A connection without calls that fails at the calls with the given numbers, counted from one. -/
def make (failing : List Nat) : Recorder := ⟨failing, 0, []⟩

/-- Takes a chunk, or fails and records nothing. -/
def send (_ : Writer) (chunk : List Params) : EStateM Failure Recorder Unit := fun r =>
  let call := r.calls + 1
  if r.failing.contains call then
    .error (.raised .runtime ("execute " ++ Text.ofNat call ++ " failed")) { r with calls := call }
  else .ok () { r with calls := call, chunks := chunk :: r.chunks }

end Recorder

/-- What is asked of a writer. -/
inductive WriterCall
  | add (row : List Value)
  | extend (rows : List (List Value))
  | flush

namespace WriterCall

/-- Carries out a call over a connection; only a flush answers with a number. -/
def run {σ ε : Type} (send : Writer → List Params → EStateM ε σ Unit) :
    WriterCall → EStateM ε (Writer × σ) (Option Nat)
  | add row => do Writer.add send row; return none
  | extend rows => do Writer.extend send rows; return none
  | flush => do return some (← Writer.flush send)

/-- What a call leaves behind: its result, the writer and the connection, and the chunks it sent. -/
structure Outcome where
  result : Except Failure (Option Nat)
  writer : Writer
  recorder : Recorder
  sent : List (List Params)

def outcome (c : WriterCall) (w : Writer) (r : Recorder) : Outcome :=
  match c.run Recorder.send (w, r) with
  | .ok n (w', r') => ⟨.ok n, w', r', (r'.chunks.take (r'.chunks.length - r.chunks.length)).reverse⟩
  | .error f (w', r') => ⟨.error f, w', r', (r'.chunks.take (r'.chunks.length - r.chunks.length)).reverse⟩

/-- Carries out calls in order; a failure does not stop the next one. -/
def outcomes (w : Writer) (r : Recorder) : List WriterCall → List Outcome
  | [] => []
  | c :: rest =>
    let o := c.outcome w r
    o :: outcomes o.writer o.recorder rest

end WriterCall

end FeedLedger
