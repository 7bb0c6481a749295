/-!
The worker pool: jobs of one stream take turns, jobs of different streams share a bounded number of workers.

A submitted job waits for the turn of its stream. With the turn it is queued, and a free worker begins the queued
jobs in order. A job gives its turn back when it has ended or is cancelled. Cancelling keeps a job from being begun,
but does not stop a worker that has begun it.
-/

namespace FeedLedger

/-- A submitted batch: its number among the submissions, and its stream. -/
structure Job where
  number : Nat
  stream : String
  deriving DecidableEq

structure WorkerPool where
  workers : Nat
  /-- All jobs so far, in the order they were submitted. -/
  submitted : List Job
  waiting : List Job
  /-- The jobs that have the turn of their stream. -/
  holding : List Job
  queued : List Job
  running : List Job
  /-- All jobs begun so far, in the order they were begun. -/
  started : List Job
  deriving DecidableEq

inductive PoolStep
  | submit (stream : String)
  /-- The first job that waits for a stream's turn gets it. -/
  | grant (stream : String)
  /-- A free worker begins the first queued job. -/
  | start
  /-- A worker is done with a job, whether it failed or not. -/
  | finish (job : Job)
  /-- A caller gives up on a job that has not ended. -/
  | cancel (job : Job)
  deriving DecidableEq

namespace WorkerPool

def idle (workers : Nat) : WorkerPool := ⟨workers, [], [], [], [], [], []⟩

def isTaken (p : WorkerPool) (stream : String) : Bool := p.holding.any (·.stream = stream)

def submit (p : WorkerPool) (stream : String) : WorkerPool :=
  let job : Job := ⟨p.submitted.length, stream⟩
  { p with submitted := p.submitted ++ [job], waiting := p.waiting ++ [job] }

def grant? (p : WorkerPool) (stream : String) : Option WorkerPool :=
  match p.waiting.find? (·.stream = stream) with
  | some job =>
    if p.isTaken stream then none
    else
      some { p with
        waiting := p.waiting.erase job, holding := p.holding ++ [job], queued := p.queued ++ [job] }
  | none => none

def start? (p : WorkerPool) : Option WorkerPool :=
  match p.queued with
  | job :: rest =>
    if p.running.length < p.workers then
      some { p with queued := rest, running := p.running ++ [job], started := p.started ++ [job] }
    else none
  | [] => none

def finish? (p : WorkerPool) (job : Job) : Option WorkerPool :=
  if job ∈ p.running then some { p with running := p.running.erase job, holding := p.holding.erase job }
  else none

def cancel? (p : WorkerPool) (job : Job) : Option WorkerPool :=
  if job ∈ p.waiting ∨ job ∈ p.holding then
    some { p with
      waiting := p.waiting.erase job, holding := p.holding.erase job, queued := p.queued.erase job }
  else none

/-- The pool after a step; none if the step is not possible. -/
def step? (p : WorkerPool) : PoolStep → Option WorkerPool
  | .submit stream => some (p.submit stream)
  | .grant stream => p.grant? stream
  | .start => p.start?
  | .finish job => p.finish? job
  | .cancel job => p.cancel? job

def run? (p : WorkerPool) : List PoolStep → Option WorkerPool
  | [] => some p
  | s :: rest => (p.step? s).bind (run? · rest)

def ofStream (stream : String) (jobs : List Job) : List Job := jobs.filter (·.stream = stream)

theorem run?_append (p : WorkerPool) (first rest : List PoolStep) :
    p.run? (first ++ rest) = (p.run? first).bind (run? · rest) := by
  induction first generalizing p with
  | nil => rfl
  | cons s r ih =>
    simp only [List.cons_append, run?]
    cases p.step? s with
    | none => rfl
    | some q => exact ih q

end WorkerPool

end FeedLedger
