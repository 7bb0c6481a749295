import FeedLedger.Proofs.Metered

namespace FeedLedger

theorem exists_error_of_isOk_eq_false {ε α : Type} {e : Except ε α} (h : e.isOk = false) : ∃ f, e = .error f := by
  cases e with
  | error f => exact ⟨f, rfl⟩
  | ok a => cases h

namespace Ledger

/-- Whether a call passes its arguments, begins its batch and sends all its rows. -/
def sendsRows (c : Coordinator) (outages : Outages) (stream : Value) (records : List (Except Failure Record))
    (offset : Value) (before : Store) (inserts : List String) : Bool :=
  match checkArguments stream offset with
  | .error _ => false
  | .ok o => Settled.sends c outages o records before inserts

variable {c : Coordinator} {outages : Outages} {stream offset : Value} {records : List (Except Failure Record)}
  {l : Ledger} {inserts : List String} {f : Failure}

/-- A batch that fails leaves the counters of rows and the gauges as they were. -/
theorem metrics_of_failed (h : (l.ingest c outages stream records offset inserts).result = .error f) :
    (l.ingest c outages stream records offset inserts).ledger.metrics.rowsWritten = l.metrics.rowsWritten ∧
      (l.ingest c outages stream records offset inserts).ledger.metrics.committedOffset =
        l.metrics.committedOffset := by
  cases ho : checkArguments stream offset with
  | error g =>
    rw [ingest_refused ho]
    exact ⟨rfl, rfl⟩
  | ok o =>
    obtain ⟨hanswer, hledger⟩ := ingest_begun ho c outages records l inserts
    cases hr : (Settled.run c outages o records l.store inserts).result with
    | ok rows =>
      rw [hanswer, batchAnswer, hr] at h
      cases h
    | error g =>
      rw [hledger, batchMetrics_error hr]
      exact ⟨rfl, rfl⟩

/-- A call counts its malformed records if it sends all its rows, and none of them otherwise. -/
theorem malformed_of_sendsRows (table : String) :
    (Keyed.get? table (l.ingest c outages stream records offset inserts).ledger.metrics.malformed).getD 0 =
      (Keyed.get? table l.metrics.malformed).getD 0 +
        if sendsRows c outages stream records offset l.store inserts then (leftOut c.schemas records).count table
        else 0 := by
  cases ho : checkArguments stream offset with
  | error g =>
    rw [ingest_refused ho, sendsRows, ho]
    rfl
  | ok o =>
    rw [(ingest_begun ho c outages records l inserts).2, get?_malformed_batchMetrics, sendsRows, ho]

end Ledger

namespace Attempt

/-- Whether a call begins a batch and sends all its rows. -/
def sends (a : Attempt) (before : Store) : Bool :=
  match a.begins? with
  | none => false
  | some o => Settled.sends a.coordinator a.outages o a.write.records before a.earlier

/-- The tables that the malformed records of a call are counted under. -/
def dropped (a : Attempt) : List String := leftOut a.schemas a.write.records

/-- The calls of a run that fail although they have sent all their rows. -/
def late (l : Ledger) : List Attempt → List Attempt
  | [] => []
  | a :: rest =>
    if a.sends l.store && !(a.carryOut l).1.isOk then a :: late (a.carryOut l).2 rest else late (a.carryOut l).2 rest

variable {a : Attempt} {l : Ledger} {o : BatchOrigin} {s : Settled}

theorem Begun.sends_eq (hb : a.Begun l o s) :
    a.sends l.store = Settled.sends a.coordinator a.outages o a.write.records l.store a.earlier := by
  rw [sends, hb.begins]

/-- A batch that is committed has sent all its rows. -/
theorem Begun.sends_of_isOk (hb : a.Begun l o s) (hok : (a.carryOut l).1.isOk = true) : a.sends l.store = true := by
  rw [hb.sends_eq]
  cases hs : Settled.sends a.coordinator a.outages o a.write.records l.store a.earlier with
  | true => rfl
  | false =>
    obtain ⟨-, f, hf⟩ := Settled.run_unsent hs
    rw [hb.result, Ledger.batchAnswer, hb.settled, hf] at hok
    cases hok

/-- A call counts its malformed records if it returns, and also if it fails when it has sent its rows. -/
theorem malformed_carryOut (a : Attempt) (l : Ledger) (table : String) :
    (Keyed.get? table (a.carryOut l).2.metrics.malformed).getD 0 =
      (Keyed.get? table l.metrics.malformed).getD 0 +
        if (a.carryOut l).1.isOk || a.sends l.store then a.dropped.count table else 0 := by
  rcases a.metered_cases l with ⟨hbegins, ⟨f, hf⟩, hl⟩ | ⟨o, s, hb⟩ | ⟨o, hm⟩
  · have hsends : a.sends l.store = false := by rw [sends, hbegins]
    rw [hl, hf, hsends]
    rfl
  · have hcounts : ((a.carryOut l).1.isOk || a.sends l.store) = a.sends l.store := by
      cases hok : (a.carryOut l).1.isOk with
      | true => rw [hb.sends_of_isOk hok]; rfl
      | false => rfl
    rw [hcounts, hb.ledger, hb.settled, Ledger.get?_malformed_batchMetrics, hb.sends_eq]
    rfl
  · have hnone : a.dropped = [] := by
      rw [dropped, hm.unfilled]
      rfl
    rw [hm.metrics, hnone, List.count_nil, ite_self]
    rfl

theorem malformed_run (calls : List Attempt) (l : Ledger) (table : String) :
    (Keyed.get? table (run l calls).2.metrics.malformed).getD 0 =
      (Keyed.get? table l.metrics.malformed).getD 0 + ((returning l calls).flatMap (·.dropped)).count table +
        ((late l calls).flatMap (·.dropped)).count table := by
  induction calls generalizing l with
  | nil => rfl
  | cons a rest ih =>
    have hrun : (run l (a :: rest)).2 = (run (a.carryOut l).2 rest).2 := rfl
    rw [hrun, ih, malformed_carryOut, returning, late]
    cases (a.carryOut l).1.isOk <;> cases a.sends l.store <;>
      simp [List.flatMap_cons, List.count_append] <;> omega

/-- A batch that fails, wherever it does, leaves the counters of rows and the gauges as they were, and those of malformed
records too unless all its rows had been sent. So after any run these counters are the malformed records of the calls
that returned, and in addition those of the calls that failed late. -/
theorem failed_batches_count_once_sent (calls : List Attempt) :
    (∀ (l : Ledger) (c : Coordinator) (outages : Outages) (stream offset : Value)
      (records : List (Except Failure Record)) (inserts : List String) (f : Failure),
      let after := l.ingest c outages stream records offset inserts
      after.result = .error f →
        after.ledger.metrics.rowsWritten = l.metrics.rowsWritten ∧
        after.ledger.metrics.committedOffset = l.metrics.committedOffset ∧
        ∀ table, (Keyed.get? table after.ledger.metrics.malformed).getD 0 =
          (Keyed.get? table l.metrics.malformed).getD 0 +
            if Ledger.sendsRows c outages stream records offset l.store inserts then
              (leftOut c.schemas records).count table
            else 0) ∧
      ∀ table, (Keyed.get? table (run .fresh calls).2.metrics.malformed).getD 0 =
        ((returning .fresh calls).flatMap (·.dropped)).count table +
          ((late .fresh calls).flatMap (·.dropped)).count table := by
  constructor
  · intro l c outages stream offset records inserts f after hf
    obtain ⟨hrows, hoffsets⟩ := Ledger.metrics_of_failed hf
    exact ⟨hrows, hoffsets, Ledger.malformed_of_sendsRows⟩
  · intro table
    rw [malformed_run, show (Keyed.get? table Ledger.fresh.metrics.malformed).getD 0 = 0 from rfl, Nat.zero_add]

/-- A batch whose source fails, one whose offset cannot be written, and the same one tried again. -/
theorem retried_batch_counts_twice :
    let batch : List (Except Failure Record) := [.ok ⟨"nowhere", []⟩, .ok (.sentiment (.int 50))]
    let early : Attempt :=
      ⟨Registry.schema?, 1, false, [], [], .ingest (.text "s") (batch ++ [.error (.raised .value "")]) (.int 1)⟩
    let failing : Attempt :=
      ⟨Registry.schema?, 1, false, [⟨.upsert, .database .operational⟩], [], .ingest (.text "s") batch (.int 1)⟩
    let retried : Attempt := ⟨Registry.schema?, 1, false, [], [], .ingest (.text "s") batch (.int 1)⟩
    let calls := [early, failing, retried]
    let after := Ledger.fresh.ingest failing.coordinator failing.outages (.text "s") batch (.int 1) []
    (∃ f, after.result = .error f) ∧ after.ledger.metrics.rowsWritten = [] ∧
      after.ledger.metrics.committedOffset = [] ∧
      (Keyed.get? "nowhere" after.ledger.metrics.malformed).getD 0 = 1 ∧
      (Keyed.get? "nowhere" (run .fresh calls).2.metrics.malformed).getD 0 = 2 := by
  intro batch early failing retried calls after
  obtain ⟨hfailed, hrun⟩ := failed_batches_count_once_sent calls
  obtain ⟨f, hf⟩ : ∃ f, after.result = .error f := exists_error_of_isOk_eq_false (by decide +kernel)
  obtain ⟨hrows, hoffsets, hmalformed⟩ :=
    hfailed .fresh failing.coordinator failing.outages (.text "s") (.int 1) batch [] f hf
  refine ⟨⟨f, hf⟩, hrows, hoffsets, (hmalformed "nowhere").trans ?_, (hrun "nowhere").trans ?_⟩
  · decide +kernel
  · decide +kernel

/-- A batch whose offset is beyond 64 bits sends its rows before it fails, and its malformed record is counted. -/
theorem refused_offset_counts_malformed :
    ¬ ∀ (calls : List Attempt) (c : Coordinator) (outages : Outages) (stream offset : Value)
      (records : List (Except Failure Record)) (inserts : List String) (f : Failure),
      let l := (run .fresh calls).2
      let after := l.ingest c outages stream records offset inserts
      after.result = .error f →
        after.ledger.metrics.rowsWritten = l.metrics.rowsWritten ∧
          after.ledger.metrics.malformed = l.metrics.malformed ∧
          after.ledger.metrics.committedOffset = l.metrics.committedOffset := by
  intro h
  obtain ⟨f, hf⟩ := exists_error_of_isOk_eq_false (e := (Ledger.fresh.ingest ⟨Registry.schema?, 1, Link.store false⟩ []
    (.text "s") [.ok ⟨"nowhere", []⟩] (.int 9223372036854775808) []).result) (by decide +kernel)
  have hkept := h [] ⟨Registry.schema?, 1, Link.store false⟩ [] (.text "s") (.int 9223372036854775808)
    [.ok ⟨"nowhere", []⟩] [] f hf
  exact absurd hkept.2.1 (by decide +kernel)

end Attempt

end FeedLedger
