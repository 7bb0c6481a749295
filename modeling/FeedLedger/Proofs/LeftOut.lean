import FeedLedger.Proofs.Lockstep

namespace FeedLedger

namespace Record

/-- The table that a record is counted under if it is malformed: its own if that has no schema, and the schema's if a
required field is missing. -/
def malformedUnder? (schemas : String → Option Schema) (r : Record) : Option String :=
  match schemas r.table with
  | none => some r.table
  | some s => if r.missingKeys s = [] then none else some s.table

variable {schemas : String → Option Schema} {r : Record}

theorem malformedUnder?_of_error {m : Malformed} (h : r.validate (schemas r.table) = .error m) :
    r.malformedUnder? schemas = some m.table := by
  unfold malformedUnder?
  cases hs : schemas r.table with
  | none =>
    rw [hs, validate] at h
    cases h
    rfl
  | some s =>
    rw [hs] at h
    obtain ⟨hmissing, rfl⟩ := validate_eq_error_iff.1 h
    simp [hmissing]

theorem malformedUnder?_of_ok {v : ValidRecord} (h : r.validate (schemas r.table) = .ok v) :
    r.malformedUnder? schemas = none := by
  unfold malformedUnder?
  cases hs : schemas r.table with
  | none =>
    rw [hs, validate] at h
    cases h
  | some s =>
    rw [hs] at h
    obtain ⟨hmissing, -⟩ := validate_eq_ok_iff.1 h
    simp [hmissing]

end Record

/-- The tables that the malformed records of a batch are counted under, one for each of them. -/
def leftOut (schemas : String → Option Schema) (records : List (Except Failure Record)) : List String :=
  records.filterMap fun
    | .ok r => r.malformedUnder? schemas
    | .error _ => none

/-- A batch without its malformed records. What its source fails with stays where it is. -/
def wellFormed (schemas : String → Option Schema) (records : List (Except Failure Record)) :
    List (Except Failure Record) :=
  records.filter fun
    | .ok r => (r.malformedUnder? schemas).isNone
    | .error _ => true

theorem sieved_wellFormed (schemas : String → Option Schema) (records : List (Except Failure Record)) :
    Sieved schemas records (wellFormed schemas records) := by
  induction records with
  | nil => exact .nil
  | cons source rest ih =>
    cases source with
    | error f => exact .keep (.error f) ih
    | ok r =>
      cases hr : r.validate (schemas r.table) with
      | error m =>
        have hsome : r.malformedUnder? schemas = some m.table := Record.malformedUnder?_of_error hr
        have hleft : wellFormed schemas (.ok r :: rest) = wellFormed schemas rest := by
          simp [wellFormed, hsome]
        rw [hleft]
        exact .leave hr ih
      | ok v =>
        have hnone : r.malformedUnder? schemas = none := Record.malformedUnder?_of_ok hr
        have hkept : wellFormed schemas (.ok r :: rest) = .ok r :: wellFormed schemas rest := by
          simp [wellFormed, hnone]
        rw [hkept]
        exact .keep (.ok r) ih

theorem leftOut_wellFormed (schemas : String → Option Schema) (records : List (Except Failure Record)) :
    leftOut schemas (wellFormed schemas records) = [] := by
  simp only [leftOut, wellFormed, List.filterMap_eq_nil_iff, List.mem_filter]
  rintro (f | r) ⟨-, hr⟩
  · rfl
  · simpa using hr

namespace Keyed

/-- Counts under keys, each key added once for every time it is listed. -/
def tally (keys : List String) (l : List (String × Nat)) : List (String × Nat) :=
  keys.foldl (fun l key => add key 1 l) l

theorem get?_tally (key : String) (listed : List String) (l : List (String × Nat)) :
    (get? key (tally listed l)).getD 0 = (get? key l).getD 0 + listed.count key := by
  induction listed generalizing l with
  | nil => rfl
  | cons first rest ih =>
    have hrest : (get? key (tally rest (add first 1 l))).getD 0 =
        (get? key (add first 1 l)).getD 0 + rest.count key := ih (add first 1 l)
    have hfirst := get?_add first key 1 l
    rw [List.count_cons]
    by_cases h : key = first
    · subst h
      simp only [tally, List.foldl_cons, if_true, beq_self_eq_true] at hrest hfirst ⊢
      omega
    · have hne : (first == key) = false := by simpa using Ne.symm h
      simp only [tally, List.foldl_cons, h, hne, if_false] at hrest hfirst ⊢
      simp
      omega

theorem nodup_keys_tally (listed : List String) {l : List (String × Nat)} (h : (keys l).Nodup) :
    (keys (tally listed l)).Nodup := by
  induction listed generalizing l with
  | nil => exact h
  | cons first rest ih => exact ih (nodup_keys_put h first _)

theorem get?_addAll (key : String) {more : List (String × Nat)} (h : (keys more).Nodup) (l : List (String × Nat)) :
    (get? key (addAll more l)).getD 0 = (get? key l).getD 0 + (get? key more).getD 0 := by
  induction more generalizing l with
  | nil => rfl
  | cons p rest ih =>
    obtain ⟨first, n⟩ := p
    simp only [keys, List.map_cons, List.nodup_cons] at h
    have hrest : (get? key (addAll rest (add first n l))).getD 0 =
        (get? key (add first n l)).getD 0 + (get? key rest).getD 0 := ih h.2 (add first n l)
    have hfirst := get?_add first key n l
    simp only [addAll, List.foldl_cons] at hrest ⊢
    by_cases hk : first = key
    · subst hk
      have hnone : get? first rest = none := get?_eq_none_iff.2 h.1
      simp only [get?, hnone, if_true, Option.getD_some, Option.getD_none] at hrest hfirst ⊢
      omega
    · have hne : key ≠ first := fun e => hk e.symm
      simp only [get?, hk, hne, if_false] at hrest hfirst ⊢
      omega

end Keyed

namespace Batch

variable {c : Coordinator} {outages : Outages} {o : BatchOrigin} {b b' : Batch}

theorem malformed_writeValid {v : ValidRecord} (h : writeValid c outages o v b = .ok () b') :
    b'.malformed = b.malformed := by
  simp only [writeValid] at h
  split at h
  · cases h
  · split at h
    · cases h
      rfl
    · cases h

/-- A batch that is written through has counted every malformed record once, in order. -/
theorem malformed_writeRecords {records : List (Except Failure Record)}
    (h : writeRecords c outages o records b = .ok () b') :
    b'.malformed = Keyed.tally (leftOut c.schemas records) b.malformed := by
  induction records generalizing b with
  | nil =>
    cases h
    rfl
  | cons source rest ih =>
    cases source with
    | error f => cases h
    | ok r =>
      simp only [writeRecords, writeRecord] at h
      cases hr : r.validate (c.schemas r.table) with
      | error m =>
        have hsome : r.malformedUnder? c.schemas = some m.table := Record.malformedUnder?_of_error hr
        simp only [hr] at h
        rw [ih h]
        simp [leftOut, leaveOut, hsome, Keyed.tally]
      | ok v =>
        have hnone : r.malformedUnder? c.schemas = none := Record.malformedUnder?_of_ok hr
        simp only [hr] at h
        split at h
        · rename_i hv
          rw [ih h, malformed_writeValid hv]
          simp [leftOut, hnone]
        · cases h

theorem malformed_write {records : List (Except Failure Record)} (h : write c outages o records b = .ok () b') :
    b'.malformed = Keyed.tally (leftOut c.schemas records) b.malformed := by
  simp only [write] at h
  split at h
  · rename_i b₁ hrecords
    rw [← malformed_writeRecords hrecords]
    simp only [finish] at h
    split at h
    · cases h
    · cases h
      rfl
  · cases h

end Batch

namespace Settled

variable {c : Coordinator} {outages : Outages} {o : BatchOrigin} {records : List (Except Failure Record)}
  {before : Store} {inserts : List String}

/-- Whether a batch is begun and all its rows are sent, so that only its offset or its commit can fail. -/
def sends (c : Coordinator) (outages : Outages) (o : BatchOrigin) (records : List (Except Failure Record))
    (before : Store) (inserts : List String) : Bool :=
  (outages.at? .connect).isNone && c.link.initialLevel.2.isOk &&
    Batch.isWritten c outages o records ⟨⟨before, inserts, []⟩, [], []⟩

theorem rolledBack_fails (outages : Outages) (o : BatchOrigin) (level : String) (phase : BatchPhase) (f : Failure)
    (before : Store) (w : Work) (malformed : List (String × Nat)) :
    (rolledBack outages o level phase f before w malformed).malformed = malformed ∧
      ∃ g, (rolledBack outages o level phase f before w malformed).result = .error g := by
  simp only [rolledBack]
  split <;> exact ⟨rfl, _, rfl⟩

/-- A batch that does not send all its rows fails, and counts no malformed record. -/
theorem run_unsent (h : sends c outages o records before inserts = false) :
    (run c outages o records before inserts).malformed = [] ∧
      ∃ f, (run c outages o records before inserts).result = .error f := by
  simp only [run]
  split
  · exact ⟨rfl, _, rfl⟩
  rename_i hconnect
  split
  · exact ⟨rfl, _, rfl⟩
  rename_i level hlevel
  simp only [ofBatch]
  split
  · exact rolledBack_fails _ _ _ _ _ _ _ _
  rename_i b hwrite
  simp [sends, hconnect, hlevel, Except.isOk, Except.toBool, Batch.isWritten, hwrite] at h

/-- A batch that sends all its rows counts every malformed record, whatever happens afterwards. -/
theorem run_sent (h : sends c outages o records before inserts = true) :
    (run c outages o records before inserts).malformed = Keyed.tally (leftOut c.schemas records) [] := by
  obtain ⟨hbegun, hwritten⟩ := Bool.and_eq_true_iff.1 h
  obtain ⟨hconnect, hlevel⟩ := Bool.and_eq_true_iff.1 hbegun
  obtain ⟨b, hwrite⟩ := Batch.write_of_isWritten hwritten
  simp only [run]
  split
  · rename_i f hf
    rw [hf] at hconnect
    cases hconnect
  split
  · rename_i f hf
    rw [hf] at hlevel
    cases hlevel
  have hcounted : b.malformed = Keyed.tally (leftOut c.schemas records) [] := Batch.malformed_write hwrite
  simp only [ofBatch, hwrite]
  split
  · rw [(rolledBack_fails _ _ _ _ _ _ _ _).1, hcounted]
  · simp only [committed]
    split
    · exact hcounted
    · exact hcounted

end Settled

namespace Ledger

theorem malformed_batchMetrics (m : Metrics) (o : BatchOrigin) (s : Settled) :
    (batchMetrics m o s).malformed = Keyed.addAll s.malformed m.malformed := by
  simp only [batchMetrics]
  split
  · rfl
  · split
    · rfl
    · rfl

variable {c : Coordinator} {outages : Outages} {stream offset : Value} {records : List (Except Failure Record)}
  {l : Ledger} {inserts : List String}

/-- A batch counts its malformed records if it sends all its rows, and none of them otherwise. -/
theorem get?_malformed_batchMetrics (m : Metrics) (o : BatchOrigin) (before : Store) (table : String) :
    (Keyed.get? table (batchMetrics m o (Settled.run c outages o records before inserts)).malformed).getD 0 =
      (Keyed.get? table m.malformed).getD 0 +
        if Settled.sends c outages o records before inserts then (leftOut c.schemas records).count table else 0 := by
  rw [malformed_batchMetrics]
  cases hs : Settled.sends c outages o records before inserts with
  | true =>
    have hnodup : (Keyed.keys (Keyed.tally (leftOut c.schemas records) [])).Nodup :=
      Keyed.nodup_keys_tally _ List.nodup_nil
    rw [Settled.run_sent hs, Keyed.get?_addAll table hnodup, Keyed.get?_tally]
    simp
  | false =>
    rw [(Settled.run_unsent hs).1]
    rfl

theorem malformed_ingest {o : BatchOrigin} (ho : checkArguments stream offset = .ok o) :
    (l.ingest c outages stream records offset inserts).ledger.metrics.malformed =
      Keyed.addAll (Settled.run c outages o records l.store inserts).malformed l.metrics.malformed := by
  rw [(ingest_begun ho c outages records l inserts).2, malformed_batchMetrics]

/-- A batch without malformed records leaves their counts alone. -/
theorem malformed_of_leftOut_eq_nil (h : leftOut c.schemas records = []) :
    (l.ingest c outages stream records offset inserts).ledger.metrics.malformed = l.metrics.malformed := by
  cases ho : checkArguments stream offset with
  | error f => rw [ingest_refused ho]
  | ok o =>
    rw [malformed_ingest ho]
    cases hs : Settled.sends c outages o records l.store inserts with
    | true =>
      rw [Settled.run_sent hs, h]
      rfl
    | false =>
      rw [(Settled.run_unsent hs).1]
      rfl

/-- A batch that is taken in counts its malformed records, each under its table. -/
theorem malformed_of_ingest {n : Nat} (h : (l.ingest c outages stream records offset inserts).result = .ok n)
    (table : String) :
    (Keyed.get? table (l.ingest c outages stream records offset inserts).ledger.metrics.malformed).getD 0 =
      (Keyed.get? table l.metrics.malformed).getD 0 + (leftOut c.schemas records).count table := by
  cases ho : checkArguments stream offset with
  | error f =>
    rw [ingest_refused ho] at h
    cases h
  | ok o =>
    obtain ⟨hanswer, hledger⟩ := ingest_begun ho c outages records l inserts
    cases hs : Settled.sends c outages o records l.store inserts with
    | true => rw [hledger, get?_malformed_batchMetrics, if_pos hs]
    | false =>
      obtain ⟨-, f, hf⟩ := Settled.run_unsent hs
      rw [hanswer, batchAnswer, hf] at h
      cases h

/-- What a batch is answered and does to the store depends on its well-formed records alone; its malformed ones only
show in their counts. -/
theorem malformed_records_do_not_interfere (c : Coordinator) (outages : Outages) (stream offset : Value)
    (records : List (Except Failure Record)) (l : Ledger) (inserts : List String) :
    let mixed := l.ingest c outages stream records offset inserts
    let clean := l.ingest c outages stream (wellFormed c.schemas records) offset inserts
    mixed.result = clean.result ∧ mixed.ledger.store = clean.ledger.store ∧ mixed.inserts = clean.inserts ∧
      clean.ledger.metrics.malformed = l.metrics.malformed ∧
      ∀ n, mixed.result = .ok n → ∀ table,
        (Keyed.get? table mixed.ledger.metrics.malformed).getD 0 =
          (Keyed.get? table l.metrics.malformed).getD 0 + (leftOut c.schemas records).count table := by
  intro mixed clean
  have hclean : clean.ledger.metrics.malformed = l.metrics.malformed :=
    malformed_of_leftOut_eq_nil (leftOut_wellFormed c.schemas records)
  suffices hsame : mixed.result = clean.result ∧ mixed.ledger.store = clean.ledger.store ∧
      mixed.inserts = clean.inserts from
    ⟨hsame.1, hsame.2.1, hsame.2.2, hclean, fun n hn table => malformed_of_ingest hn table⟩
  cases ho : checkArguments stream offset with
  | error f => simp [mixed, clean, ingest, ho]
  | ok o =>
    have hlockstep : Lockstep (fun _ => False) Eq (fun _ _ => True) c outages outages o := by
      apply Lockstep.on_same_store
      · exact fun p => .inl rfl
      · simp
    rcases hlockstep.ingest (sieved_wellFormed c.schemas records) (rfl : l.store = l.store) ho inserts with
      ⟨g, -, hbreaks⟩ | hsame
    · exact hbreaks.elim
    · exact hsame

/-- Two scores among a record of an unknown table and two that lack required fields. -/
theorem mixed_batch_counts_once :
    let c : Coordinator := ⟨Registry.schema?, 1, Link.store false⟩
    let records : List (Except Failure Record) :=
      [.ok ⟨"nowhere", []⟩, .ok (.sentiment (.int 50)), .ok ⟨"fear_greed_index", []⟩, .ok (.sentiment (.int 60)),
        .ok ⟨"fear_greed_index", [("value", .int 70)]⟩]
    let mixed := Ledger.fresh.ingest c [] (.text "s") records (.int 5) []
    let clean := Ledger.fresh.ingest c [] (.text "s") (wellFormed c.schemas records) (.int 5) []
    mixed.result = .ok 2 ∧ mixed.result = clean.result ∧ mixed.ledger.store = clean.ledger.store ∧
      clean.ledger.metrics.malformed = [] ∧
      (Keyed.get? "nowhere" mixed.ledger.metrics.malformed).getD 0 = 1 ∧
      (Keyed.get? "fear_greed_index" mixed.ledger.metrics.malformed).getD 0 = 2 := by
  intro c records mixed clean
  have hok : mixed.result = .ok 2 := by
    apply eq_ok_of_toOption
    decide +kernel
  obtain ⟨hresult, hstore, -, hclean, hcount⟩ :=
    malformed_records_do_not_interfere c [] (.text "s") (.int 5) records Ledger.fresh []
  exact ⟨hok, hresult, hstore, hclean, hcount 2 hok "nowhere", hcount 2 hok "fear_greed_index"⟩

end Ledger

end FeedLedger
