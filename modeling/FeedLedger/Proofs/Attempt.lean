import FeedLedger.Ledger.Call
import FeedLedger.Proofs.Offset
import FeedLedger.Proofs.Written

namespace FeedLedger

/-- The store after all rows of a batch and its offset. -/
structure Commits (schemas : String → Option Schema) (o : BatchOrigin) (rs : List Record) (chunks : List Chunk)
    (before after : Store) : Prop where
  covers : Batch.Covers (IngestKey.batchName o.stream o.offset) (Batch.validRecords schemas rs) chunks
  executed : ∃ mid, before.executeChunks chunks = .ok mid ∧
    mid.executeChunk (Chunk.offset o.stream o.offset) = .ok after

theorem Commits.laid {schemas : String → Option Schema} {o : BatchOrigin} {rs : List Record} {chunks : List Chunk}
    {before after : Store} (h : Commits schemas o rs chunks before after) (hl : before.Laid) :
    ∃ mid, before.executeChunks chunks = .ok mid ∧ mid.Laid ∧
      mid.executeChunk (Chunk.offset o.stream o.offset) = .ok after := by
  obtain ⟨mid, he, ho⟩ := h.executed
  refine ⟨mid, he, hl.executeChunks (fun k hk => ?_) he, ho⟩
  obtain ⟨v, -, hi⟩ := h.covers.stated k hk
  exact Schema.table_mem_of_insert hi

theorem Commits.laid_after {schemas : String → Option Schema} {o : BatchOrigin} {rs : List Record} {chunks : List Chunk}
    {before after : Store} (h : Commits schemas o rs chunks before after) (hl : before.Laid) : after.Laid := by
  obtain ⟨mid, -, hmid, ho⟩ := h.laid hl
  exact hmid.executeChunk Catalog.streamOffsets_mem ho

/-- Whether connections of the session's store commit by themselves or not, a batch does not. -/
theorem Link.default_store_ne_autocommit (autocommitting : Bool) : (store autocommitting).default ≠ autocommit := by
  change "SERIALIZABLE" ≠ "AUTOCOMMIT"
  decide

theorem Batch.covers_nil (batch : String) : Batch.Covers batch [] [] where
  filled := by simp
  stated := by simp
  rows := by simp [Batch.sent, Batch.handed, Batch.firstOf]

theorem Work.executeChunk_of_storeOffset {outages : Outages} {stream : Value} {n : Int} {w w' : Work}
    (h : w.storeOffset outages stream n = .ok () w') : w.store.executeChunk (Chunk.offset stream n) = .ok w'.store := by
  simp only [Work.storeOffset] at h
  split at h
  · cases h
  · exact Work.executeChunk_of_execute_ok h

namespace Settled

variable {c : Coordinator} {outages : Outages} {o : BatchOrigin} {records : List (Except Failure Record)}
  {before : Store} {inserts : List String}

theorem undone_eq {level : String} (h : level ≠ Link.autocommit) (before current : Store) :
    undone level before current = before := if_neg h

theorem store_rolledBack {level : String} (h : level ≠ Link.autocommit) (phase : BatchPhase) (f : Failure) (w : Work)
    (malformed : List (String × Nat)) :
    ∃ g, (rolledBack outages o level phase f before w malformed).result = .error g ∧
      (rolledBack outages o level phase f before w malformed).store = before := by
  simp only [rolledBack]
  simp only [undone_eq h]
  split
  · exact ⟨f, rfl, rfl⟩
  · exact ⟨f, rfl, rfl⟩
  · exact ⟨_, rfl, rfl⟩

/-- A transaction of its own fails and leaves nothing behind, or commits rows and offset. -/
theorem ofBatch_cases {level : String} (h : level ≠ Link.autocommit) :
    (∃ f, (ofBatch c outages o level records before inserts).result = .error f ∧
      (ofBatch c outages o level records before inserts).store = before) ∨
    ∃ rs chunks rows, records = rs.map .ok ∧
      (ofBatch c outages o level records before inserts).result = .ok rows ∧
      Ledger.total rows = ((Batch.validRecords c.schemas rs).flatMap (·.rows)).length ∧
      Commits c.schemas o rs chunks before (ofBatch c outages o level records before inserts).store := by
  simp only [ofBatch]
  split
  · exact .inl (store_rolledBack h _ _ _ _)
  rename_i b hw
  split
  · exact .inl (store_rolledBack h _ _ _ _)
  rename_i w ho
  obtain ⟨rs, hrs, hexec, hcovers, htotal⟩ := Batch.write_ok hw
  simp only [committed]
  split
  · exact .inl ⟨_, rfl, undone_eq h _ _⟩
  · exact .inr ⟨rs, _, _, hrs, rfl, htotal, hcovers, b.work.store, hexec, Work.executeChunk_of_storeOffset ho⟩

theorem run_cases (h : c.link.default ≠ Link.autocommit) (outages : Outages) (o : BatchOrigin)
    (records : List (Except Failure Record)) (before : Store) (inserts : List String) :
    (∃ f, (run c outages o records before inserts).result = .error f ∧
      (run c outages o records before inserts).store = before) ∨
    ∃ rs chunks rows, records = rs.map .ok ∧ (run c outages o records before inserts).result = .ok rows ∧
      Ledger.total rows = ((Batch.validRecords c.schemas rs).flatMap (·.rows)).length ∧
      Commits c.schemas o rs chunks before (run c outages o records before inserts).store := by
  simp only [run]
  split
  · exact .inl ⟨_, rfl, rfl⟩
  split
  · exact .inl ⟨_, rfl, rfl⟩
  · exact ofBatch_cases (Link.bodyLevel_ne_autocommit h _)

end Settled

namespace Ledger

theorem checkArguments_ok {stream offset : Value} {o : BatchOrigin} (h : checkArguments stream offset = .ok o) :
    stream.isEmpty = false ∧ o.stream = stream ∧ offset = .int o.offset ∧ 0 ≤ o.offset := by
  simp only [checkArguments] at h
  split at h
  · cases h
  rename_i hs
  split at h
  · split at h
    · rename_i hn
      cases h
      exact ⟨by simpa using hs, rfl, rfl, hn⟩
    · cases h
  · cases h

/-- The answer of a call whose batch came out so. -/
def batchAnswer (o : BatchOrigin) (s : Settled) : Except Failure Nat :=
  match s.result with
  | .ok rows => .ok (total rows)
  | .error f => .error (f.during (.persistBatch o.stream o.offset))

theorem ingest_refused {stream offset : Value} {f : Failure} (h : checkArguments stream offset = .error f)
    (c : Coordinator) (outages : Outages) (records : List (Except Failure Record)) (l : Ledger) (inserts : List String) :
    l.ingest c outages stream records offset inserts = ⟨.error f, [], l, inserts⟩ := by
  simp only [ingest, h]

theorem ingest_begun {stream offset : Value} {o : BatchOrigin} (h : checkArguments stream offset = .ok o)
    (c : Coordinator) (outages : Outages) (records : List (Except Failure Record)) (l : Ledger) (inserts : List String) :
    let s := Settled.run c outages o records l.store inserts
    (l.ingest c outages stream records offset inserts).result = batchAnswer o s ∧
      (l.ingest c outages stream records offset inserts).ledger = ⟨s.store, batchMetrics l.metrics o s⟩ := by
  simp only [ingest, h, batchAnswer]
  cases (Settled.run c outages o records l.store inserts).result <;> exact ⟨rfl, rfl⟩

/-- A batch that is taken in is committed as a whole; one that fails leaves the store as it was. -/
theorem ingest_cases {c : Coordinator} (h : c.link.default ≠ Link.autocommit) (outages : Outages) (stream offset : Value)
    (records : List (Except Failure Record)) (l : Ledger) (inserts : List String) :
    (∃ f, (l.ingest c outages stream records offset inserts).result = .error f ∧
      (l.ingest c outages stream records offset inserts).ledger.store = l.store) ∨
    ∃ o rs chunks, checkArguments stream offset = .ok o ∧ records = rs.map .ok ∧
      (l.ingest c outages stream records offset inserts).result =
        .ok ((Batch.validRecords c.schemas rs).flatMap (·.rows)).length ∧
      Commits c.schemas o rs chunks l.store (l.ingest c outages stream records offset inserts).ledger.store := by
  unfold ingest
  split
  · exact .inl ⟨_, rfl, rfl⟩
  rename_i o ho
  simp only
  rcases Settled.run_cases h outages o records l.store inserts with
    ⟨f, hf, hs⟩ | ⟨rs, chunks, rows, hrs, hr, ht, hc⟩
  · rw [hf]
    exact .inl ⟨_, rfl, hs⟩
  · rw [hr]
    exact .inr ⟨o, rs, chunks, ho, hrs, congrArg _ ht, hc⟩

theorem setOffset_cases (c : Coordinator) (outages : Outages) (stream offset : Value) (l : Ledger)
    (inserts : List String) :
    (∃ f, (l.setOffset c outages stream offset inserts).result = .error f ∧
      (l.setOffset c outages stream offset inserts).ledger.store = l.store) ∨
    ∃ o, checkArguments stream offset = .ok o ∧ (l.setOffset c outages stream offset inserts).result = .ok () ∧
      Commits c.schemas o [] [] l.store (l.setOffset c outages stream offset inserts).ledger.store := by
  simp only [setOffset]
  split
  · exact .inl ⟨_, rfl, rfl⟩
  rename_i o ho
  split
  · exact .inl ⟨_, rfl, rfl⟩
  rename_i store after hs
  refine .inr ⟨o, ho, rfl, Batch.covers_nil _, l.store, rfl, ?_⟩
  simp only [storeOffset] at hs
  split at hs
  · cases hs
  split at hs
  · cases hs
  split at hs
  · cases hs
  rename_i w hw
  split at hs
  · cases hs
  · cases hs
    exact Work.executeChunk_of_storeOffset hw

theorem ingest_congr {l m : Ledger} (h : l.store = m.store) (c : Coordinator) (outages : Outages)
    (stream offset : Value) (records : List (Except Failure Record)) (inserts : List String) :
    (l.ingest c outages stream records offset inserts).result =
        (m.ingest c outages stream records offset inserts).result ∧
      (l.ingest c outages stream records offset inserts).ledger.store =
        (m.ingest c outages stream records offset inserts).ledger.store := by
  simp only [ingest]
  split
  · exact ⟨rfl, h⟩
  simp only [h]
  split <;> exact ⟨rfl, rfl⟩

theorem setOffset_congr {l m : Ledger} (h : l.store = m.store) (c : Coordinator) (outages : Outages)
    (stream offset : Value) (inserts : List String) :
    (l.setOffset c outages stream offset inserts).result = (m.setOffset c outages stream offset inserts).result ∧
      (l.setOffset c outages stream offset inserts).ledger.store =
        (m.setOffset c outages stream offset inserts).ledger.store := by
  simp only [setOffset]
  split
  · exact ⟨rfl, h⟩
  rw [h]
  split
  · exact ⟨rfl, h⟩
  · exact ⟨rfl, rfl⟩

end Ledger

theorem Submission.order_single (b : Submission) : Submission.order [b] = [(b, 0)] := by
  simp [order, Turns.order, Turns.byKey, Turns.enqueue, Turns.serve, Keyed.put]

namespace Ledger

/-- What a batch that waits for its turn is answered and leaves. -/
def takeTurn (c : Coordinator) (outages : Outages) (s : Submission) (l : Ledger) (inserts : List String) : Reply Nat :=
  match s.turnFailure? with
  | some f => ⟨.error f, [], l, inserts⟩
  | none => l.ingest c outages s.stream s.records s.offset inserts

theorem ingestAll_cons (c : Coordinator) (outages : Outages) (s : Submission) (number : Nat)
    (rest : List (Submission × Nat)) (l : Ledger) (inserts : List String) :
    ingestAll c outages ((s, number) :: rest) l inserts =
      match (l.takeTurn c outages s inserts).result with
      | .error (.raised .interrupt message) =>
        { l.takeTurn c outages s inserts with result := .error (.raised .interrupt message) }
      | result =>
        let t := ingestAll c outages rest (l.takeTurn c outages s inserts).ledger (l.takeTurn c outages s inserts).inserts
        ⟨t.result.map ((number, result) :: ·), (l.takeTurn c outages s inserts).events ++ t.events, t.ledger,
          t.inserts⟩ := rfl

def onlyAnswer : Except Failure (List (Except Failure Nat)) → Except Failure Answer
  | .error f => .error f
  | .ok [r] => r.map .rows
  | .ok results => .ok (.batches results)

/-- What keeps a single batch from being handed to the workers, whatever the store holds. -/
def refusal? (workers : Int) (b : Submission) : Option Failure :=
  match b.sourceFailure? with
  | some f => some f
  | none => if workers < 0 then some .invalidWorkerCount else none

variable {c : Coordinator} {outages : Outages} {workers : Int} {b : Submission}

theorem submit_refused {f : Failure} (h : refusal? workers b = some f) (l : Ledger) :
    l.submit c outages workers [b] = ⟨.error f, [], l, []⟩ := by
  simp only [refusal?] at h
  simp only [submit, List.findSome?_cons, List.findSome?_nil]
  split at h
  · rename_i g hsource
    cases h
    simp only [hsource]
  · rename_i hsource
    split at h
    · rename_i hworkers
      cases h
      simp only [hsource, if_pos hworkers]
    · cases h

/-- A single batch that is not refused takes its turn at once. -/
theorem submit_ready (h : refusal? workers b = none) (c : Coordinator) (outages : Outages) (l : Ledger) :
    onlyAnswer (l.submit c outages workers [b]).result = (l.takeTurn c outages b []).result.map .rows ∧
      (l.submit c outages workers [b]).ledger = (l.takeTurn c outages b []).ledger := by
  simp only [refusal?] at h
  split at h
  · cases h
  rename_i hsource
  split at h
  · cases h
  rename_i hworkers
  simp only [submit, List.findSome?_cons, List.findSome?_nil, hsource, if_neg hworkers, Submission.order_single]
  rw [ingestAll_cons]
  split
  · rename_i hr
    rw [hr]
    exact ⟨rfl, rfl⟩
  · exact ⟨rfl, rfl⟩

theorem submit_single (c : Coordinator) (outages : Outages) (workers : Int) (b : Submission) :
    (∃ f, ∀ l : Ledger, (l.submit c outages workers [b]).result = .error f ∧
      (l.submit c outages workers [b]).ledger = l) ∨
    ∀ l : Ledger, onlyAnswer (l.submit c outages workers [b]).result = (l.takeTurn c outages b []).result.map .rows ∧
      (l.submit c outages workers [b]).ledger = (l.takeTurn c outages b []).ledger := by
  cases h : refusal? workers b with
  | some f =>
    refine .inl ⟨f, fun l => ?_⟩
    rw [submit_refused h]
    exact ⟨rfl, rfl⟩
  | none => exact .inr fun l => submit_ready h c outages l

theorem takeTurn_cases {c : Coordinator} (h : c.link.default ≠ Link.autocommit) (outages : Outages) (b : Submission)
    (l : Ledger) (inserts : List String) :
    (∃ f, (l.takeTurn c outages b inserts).result = .error f ∧
      (l.takeTurn c outages b inserts).ledger.store = l.store) ∨
    ∃ o rs chunks, checkArguments b.stream b.offset = .ok o ∧ b.records = rs.map .ok ∧
      (l.takeTurn c outages b inserts).result = .ok ((Batch.validRecords c.schemas rs).flatMap (·.rows)).length ∧
      Commits c.schemas o rs chunks l.store (l.takeTurn c outages b inserts).ledger.store := by
  simp only [takeTurn]
  split
  · exact .inl ⟨_, rfl, rfl⟩
  · exact ingest_cases h outages _ _ _ l inserts

theorem takeTurn_congr {l m : Ledger} (h : l.store = m.store) (c : Coordinator) (outages : Outages) (b : Submission)
    (inserts : List String) :
    (l.takeTurn c outages b inserts).result = (m.takeTurn c outages b inserts).result ∧
      (l.takeTurn c outages b inserts).ledger.store = (m.takeTurn c outages b inserts).ledger.store := by
  simp only [takeTurn]
  split
  · exact ⟨rfl, h⟩
  · exact ingest_congr h c outages _ _ _ inserts

end Ledger

def Record.sentiment (score : Value) : Record :=
  ⟨"fear_greed_index", [("value", score), ("classification", .text "Fear"), ("update_time", .int 1700000000)]⟩

def Record.liquidation (size : Value) : Record :=
  ⟨"linear_all_liquidation",
    [("symbol", .text "BTC"), ("event_time", .int 1700000000000), ("side", .text "Buy"), ("size", size),
      ("price", .text "27000.5")]⟩

end FeedLedger
