import FeedLedger.Proofs.Oversized

namespace FeedLedger

namespace Settled

variable {c : Coordinator} {autocommitting : Bool} {o : BatchOrigin} {before : Store} {inserts : List String}
  {records : List (Except Failure Record)}

theorem run_on_store (hc : c.link = Link.store autocommitting) (o : BatchOrigin) (before : Store)
    (inserts : List String) (records : List (Except Failure Record)) :
    ∃ level, level ≠ Link.autocommit ∧
      run c [] o records before inserts = ofBatch c [] o level records before inserts := by
  have hdefault : c.link.default ≠ Link.autocommit := by
    rw [hc]
    exact Link.default_store_ne_autocommit autocommitting
  refine ⟨_, Link.bodyLevel_ne_autocommit hdefault (if autocommitting then Link.autocommit else "SERIALIZABLE"), ?_⟩
  simp only [run, hc]
  cases autocommitting <;> rfl

theorem run_of_write_error (hc : c.link = Link.store autocommitting) {f : Failure} {b : Batch}
    (h : Batch.write c [] o records ⟨⟨before, inserts, []⟩, [], []⟩ = .error f b) :
    (run c [] o records before inserts).result = .error f ∧ (run c [] o records before inserts).store = before := by
  obtain ⟨level, hlevel, hrun⟩ := run_on_store hc o before inserts records
  rw [hrun, ofBatch, h]
  exact ⟨rfl, undone_eq hlevel _ _⟩

theorem run_of_write_ok (hc : c.link = Link.store autocommitting) {b : Batch}
    (h : Batch.write c [] o records ⟨⟨before, inserts, []⟩, [], []⟩ = .ok () b) :
    match b.work.store.executeChunk (Chunk.offset o.stream o.offset) with
    | .error f =>
      (run c [] o records before inserts).result = .error f ∧ (run c [] o records before inserts).store = before
    | .ok after =>
      (run c [] o records before inserts).result = .ok (Batch.rowsWritten b.writers) ∧
        (run c [] o records before inserts).store = after := by
  obtain ⟨level, hlevel, hrun⟩ := run_on_store hc o before inserts records
  rw [hrun, ofBatch, h]
  cases hs : b.work.storeOffset [] o.stream o.offset with
  | ok u w =>
    rw [Work.executeChunk_of_storeOffset hs]
    simp only [hs]
    exact ⟨rfl, rfl⟩
  | error f w =>
    have he : b.work.store.executeChunk (Chunk.offset o.stream o.offset) = .error f :=
      Work.executeChunk_of_execute_error hs
    rw [he]
    simp only [hs]
    exact ⟨rfl, undone_eq hlevel _ _⟩

end Settled

namespace Ledger

variable {l : Ledger} {chunkSize : Int} {stream offset : Value} {rs : List Record} {o : BatchOrigin}

/-- An oversized integer keeps a batch from the store as a whole. -/
theorem ingest_oversized (hl : l.store.Sound) (hc : 1 ≤ chunkSize) (autocommitting : Bool) (inserts : List String)
    (ho : checkArguments stream offset = .ok o) (hlarge : Batch.Oversized (Batch.validRecords Registry.schema? rs)) :
    (l.ingest (.builtin chunkSize autocommitting) [] stream (rs.map .ok) offset inserts).result =
        .error .integerTooLarge ∧
      (l.ingest (.builtin chunkSize autocommitting) [] stream (rs.map .ok) offset inserts).ledger.store = l.store := by
  rcases Batch.write_cases rs o hc autocommitting hl inserts with ⟨-, b, hw⟩ | ⟨hsmall, -⟩
  · obtain ⟨hr, hs⟩ := Settled.run_of_write_error rfl hw
    simp only [ingest]
    simp only [ho, hr]
    exact ⟨rfl, hs⟩
  · exact absurd hlarge hsmall

/-- Rows without an oversized integer are settled, and all that can fail is storing the offset. -/
theorem ingest_small (hl : l.store.Sound) (hc : 1 ≤ chunkSize) (autocommitting : Bool) (inserts : List String)
    (ho : checkArguments stream offset = .ok o) (hsmall : ¬Batch.Oversized (Batch.validRecords Registry.schema? rs)) :
    ∃ mid : Store, mid.Sound ∧
      (∀ table, Store.settled table
        (Batch.handed (IngestKey.batchName o.stream o.offset) table (Batch.validRecords Registry.schema? rs))
        (l.store.rows table) = .ok (mid.rows table)) ∧
      match mid.executeChunk (Chunk.offset o.stream o.offset) with
      | .error f =>
        (l.ingest (.builtin chunkSize autocommitting) [] stream (rs.map .ok) offset inserts).result =
            .error (f.during (.persistBatch o.stream o.offset)) ∧
          (l.ingest (.builtin chunkSize autocommitting) [] stream (rs.map .ok) offset inserts).ledger.store = l.store
      | .ok after =>
        (l.ingest (.builtin chunkSize autocommitting) [] stream (rs.map .ok) offset inserts).result =
            .ok ((Batch.validRecords Registry.schema? rs).flatMap (·.rows)).length ∧
          (l.ingest (.builtin chunkSize autocommitting) [] stream (rs.map .ok) offset inserts).ledger.store =
            after := by
  rcases Batch.write_cases rs o hc autocommitting hl inserts with
    ⟨hlarge, -⟩ | ⟨-, b, hw, hsound, hrows, htotal⟩
  · exact absurd hlarge hsmall
  refine ⟨b.work.store, hsound, hrows, ?_⟩
  have hrun := Settled.run_of_write_ok rfl hw
  simp only [ingest]
  simp only [ho]
  split
  · rename_i f hf
    rw [hf] at hrun
    simp only [hrun.1]
    exact ⟨trivial, hrun.2⟩
  · rename_i after ha
    rw [ha] at hrun
    simp only [hrun.1, htotal]
    exact ⟨trivial, hrun.2⟩

theorem ingest_invalid {f : Failure} (hf : checkArguments stream offset = .error f) (c : Coordinator)
    (outages : Outages) (records : List (Except Failure Record)) (inserts : List String) :
    (l.ingest c outages stream records offset inserts).result = .error f ∧
      (l.ingest c outages stream records offset inserts).ledger.store = l.store := by
  simp only [ingest]
  rw [hf]
  exact ⟨rfl, rfl⟩

end Ledger

end FeedLedger
