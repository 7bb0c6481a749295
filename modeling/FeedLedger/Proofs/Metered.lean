import FeedLedger.Proofs.Committed
import FeedLedger.Proofs.LeftOut

namespace FeedLedger

namespace Batch

variable {c : Coordinator} {outages : Outages} {o : BatchOrigin} {b : Batch}

/-- The rows that a written batch counts are those of its valid records, table by table. -/
theorem rowsWritten_write {records : List (Except Failure Record)} {before : Store} {inserts : List String}
    (h : write c outages o records ⟨⟨before, inserts, []⟩, [], []⟩ = .ok () b) :
    ∃ rs, records = rs.map .ok ∧ (Keyed.keys (rowsWritten b.writers)).Nodup ∧
      ∀ table, (Keyed.get? table (rowsWritten b.writers)).getD 0 =
        (rowsOf table (validRecords c.schemas rs)).length := by
  simp only [write] at h
  split at h
  swap
  · cases h
  rename_i b₁ hw
  obtain ⟨rs, hrs, hs⟩ := (standing_start _ before inserts).writeRecords hw
  simp only [List.nil_append] at hs
  simp only [finish] at h
  split at h
  · cases h
  rename_i ws work hflush
  cases h
  obtain ⟨-, -, hrows⟩ := flushWriters_ok hflush
  refine ⟨rs, hrs, ?_, fun table => ?_⟩
  · rw [hrows, Keyed.keys, List.map_map]
    exact hs.nodup
  · rw [hrows, Keyed.get?_mapValues fun _ (w : Writer) => w.ordinal]
    cases hw : Keyed.get? table b₁.writers with
    | none => rw [rowsOf_of_firstOf_eq_none (hs.unused table hw)]; rfl
    | some w => exact (hs.serves table w hw).ordinal

end Batch

namespace Settled

variable {c : Coordinator} {outages : Outages} {o : BatchOrigin} {records : List (Except Failure Record)}
  {before : Store} {inserts : List String}

theorem rowsWritten_of_ok {rows : List (String × Nat)} (h : (run c outages o records before inserts).result = .ok rows) :
    ∃ rs, records = rs.map .ok ∧ (Keyed.keys rows).Nodup ∧
      ∀ table, (Keyed.get? table rows).getD 0 = (Batch.rowsOf table (Batch.validRecords c.schemas rs)).length := by
  have failed {level phase f w malformed}
      (h : (rolledBack outages o level phase f before w malformed).result = .ok rows) : False := by
    obtain ⟨-, g, hg⟩ := rolledBack_fails outages o level phase f before w malformed
    rw [hg] at h
    cases h
  simp only [run] at h
  split at h
  · cases h
  split at h
  · cases h
  simp only [ofBatch] at h
  split at h
  · exact (failed h).elim
  rename_i b hwrite
  split at h
  · exact (failed h).elim
  · simp only [committed] at h
    split at h
    · cases h
    · cases h
      exact Batch.rowsWritten_write hwrite

end Settled

namespace Ledger

/-- The metrics after a committed batch. -/
theorem batchMetrics_ok {s : Settled} {rows : List (String × Nat)} (h : s.result = .ok rows) (m : Metrics)
    (o : BatchOrigin) :
    batchMetrics m o s =
      ⟨Keyed.addAll rows m.rowsWritten, Keyed.addAll s.malformed m.malformed, Keyed.add o.label 1 m.batches,
        Keyed.put o.label true m.status, Keyed.put o.label (Binary64.roundInt o.offset) m.committedOffset⟩ := by
  simp only [batchMetrics, h]
  rfl

/-- The metrics after a failed batch. -/
theorem batchMetrics_error {s : Settled} {f : Failure} (h : s.result = .error f) (m : Metrics) (o : BatchOrigin) :
    batchMetrics m o s =
      ⟨m.rowsWritten, Keyed.addAll s.malformed m.malformed, Keyed.add o.label 1 m.batches,
        if f.isInterrupt then m.status else Keyed.put o.label false m.status, m.committedOffset⟩ := by
  simp only [batchMetrics, h]
  split <;> rfl

/-- Setting an offset fails and leaves the ledger as it is, or moves the gauge. -/
theorem setOffset_moved (l : Ledger) (c : Coordinator) (outages : Outages) (stream offset : Value)
    (inserts : List String) :
    (∃ f, (l.setOffset c outages stream offset inserts).result = .error f ∧
      (l.setOffset c outages stream offset inserts).ledger = l) ∨
    ∃ o, checkArguments stream offset = .ok o ∧ (l.setOffset c outages stream offset inserts).result = .ok () ∧
      (l.setOffset c outages stream offset inserts).ledger.metrics = l.metrics.setOffset o.label o.offset := by
  simp only [setOffset]
  split
  · exact .inl ⟨_, rfl, rfl⟩
  rename_i o ho
  split
  · exact .inl ⟨_, rfl, rfl⟩
  · exact .inr ⟨o, ho, rfl, rfl⟩

end Ledger

namespace Attempt

/-- The batch that a call begins, unless it is refused before or only sets an offset. -/
def begins? (a : Attempt) : Option BatchOrigin :=
  match a.write with
  | .ingest stream _ offset => (Ledger.checkArguments stream offset).toOption
  | .submit workers batch =>
    if (Ledger.refusal? workers batch).isSome ∨ batch.turnFailure?.isSome then none
    else (Ledger.checkArguments batch.stream batch.offset).toOption
  | .setOffset .. => none

/-- The inserts from which a call counts on. A batch handed to the pool counts from none. -/
def earlier (a : Attempt) : List String :=
  match a.write with
  | .submit .. => []
  | _ => a.inserts

/-- What a call leaves that has begun a batch. -/
structure Begun (a : Attempt) (l : Ledger) (o : BatchOrigin) (s : Settled) : Prop where
  begins : a.begins? = some o
  checked : Ledger.checkArguments a.write.stream a.write.offset = .ok o
  settled : s = Settled.run a.coordinator a.outages o a.write.records l.store a.earlier
  result : (a.carryOut l).1 = (Ledger.batchAnswer o s).map .rows
  ledger : (a.carryOut l).2 = ⟨s.store, Ledger.batchMetrics l.metrics o s⟩

/-- What a call leaves that has set an offset. -/
structure Moved (a : Attempt) (l : Ledger) (o : BatchOrigin) : Prop where
  begins : a.begins? = none
  checked : Ledger.checkArguments a.write.stream a.write.offset = .ok o
  unfilled : a.write.records = []
  result : (a.carryOut l).1 = .ok .done
  metrics : (a.carryOut l).2.metrics = l.metrics.setOffset o.label o.offset

/-- A call that is answered as an ingest begins its batch if the arguments pass. -/
theorem begun_of_ingest (a : Attempt) (l : Ledger)
    (hbegins : a.begins? = (Ledger.checkArguments a.write.stream a.write.offset).toOption)
    (hresult : (a.carryOut l).1 =
      (l.ingest a.coordinator a.outages a.write.stream a.write.records a.write.offset a.earlier).result.map .rows)
    (hledger : (a.carryOut l).2 =
      (l.ingest a.coordinator a.outages a.write.stream a.write.records a.write.offset a.earlier).ledger) :
    (a.begins? = none ∧ (∃ f, (a.carryOut l).1 = .error f) ∧ (a.carryOut l).2 = l) ∨ ∃ o s, a.Begun l o s := by
  cases ho : Ledger.checkArguments a.write.stream a.write.offset with
  | error f =>
    rw [ho] at hbegins
    rw [Ledger.ingest_refused ho] at hresult hledger
    exact .inl ⟨hbegins, ⟨f, hresult⟩, hledger⟩
  | ok o =>
    obtain ⟨hanswer, hafter⟩ := Ledger.ingest_begun ho a.coordinator a.outages a.write.records l a.earlier
    refine .inr ⟨o, _, ?_, ho, rfl, ?_, ?_⟩
    · rw [hbegins, ho]
      rfl
    · rw [hresult, hanswer]
    · rw [hledger, hafter]

/-- A call is refused and leaves the ledger as it is, or begins a batch, or sets an offset. -/
theorem metered_cases (a : Attempt) (l : Ledger) :
    (a.begins? = none ∧ (∃ f, (a.carryOut l).1 = .error f) ∧ (a.carryOut l).2 = l) ∨
      (∃ o s, a.Begun l o s) ∨ ∃ o, a.Moved l o := by
  cases hw : a.write with
  | ingest stream records offset =>
    refine (begun_of_ingest a l ?_ ?_ ?_).imp_right .inl
    · simp only [begins?, hw, Write.stream, Write.offset]
    · simp only [carryOut, earlier, hw, Write.stream, Write.offset, Write.records]
    · simp only [carryOut, earlier, hw, Write.stream, Write.offset, Write.records]
  | submit workers batch =>
    cases hrefusal : Ledger.refusal? workers batch with
    | some f =>
      refine .inl ⟨by simp [begins?, hw, hrefusal], ⟨f, ?_⟩, ?_⟩
      · simp only [carryOut, hw, Ledger.submit_refused hrefusal, Ledger.onlyAnswer]
      · simp only [carryOut, hw, Ledger.submit_refused hrefusal]
    | none =>
      obtain ⟨hanswer, hafter⟩ := Ledger.submit_ready hrefusal a.coordinator a.outages l
      simp only [Ledger.takeTurn] at hanswer hafter
      cases hturn : batch.turnFailure? with
      | some f =>
        simp only [hturn] at hanswer hafter
        refine .inl ⟨by simp [begins?, hw, hturn], ⟨f, ?_⟩, ?_⟩
        · simp only [carryOut, hw, hanswer]
          rfl
        · simp only [carryOut, hw, hafter]
      | none =>
        simp only [hturn] at hanswer hafter
        refine (begun_of_ingest a l ?_ ?_ ?_).imp_right .inl
        · simp [begins?, hw, hrefusal, hturn, Write.stream, Write.offset]
        · simp only [carryOut, earlier, hw, hanswer, Write.stream, Write.offset, Write.records]
        · simp only [carryOut, earlier, hw, hafter, Write.stream, Write.offset, Write.records]
  | setOffset stream offset =>
    have hbegins : a.begins? = none := by simp only [begins?, hw]
    have hcarry : a.carryOut l = ((l.setOffset a.coordinator a.outages stream offset a.inserts).result.map fun _ => .done,
        (l.setOffset a.coordinator a.outages stream offset a.inserts).ledger) := by
      simp only [carryOut, hw]
    rcases l.setOffset_moved a.coordinator a.outages stream offset a.inserts with ⟨f, hf, hl⟩ | ⟨o, ho, hr, hmetrics⟩
    · refine .inl ⟨hbegins, ⟨f, ?_⟩, ?_⟩
      · rw [hcarry, hf]
        rfl
      · rw [hcarry, hl]
    · refine .inr (.inr ⟨o, hbegins, ?_, ?_, ?_, ?_⟩)
      · rw [hw]
        exact ho
      · rw [hw]
        rfl
      · rw [hcarry, hr]
        rfl
      · rw [hcarry, hmetrics]

end Attempt

end FeedLedger
