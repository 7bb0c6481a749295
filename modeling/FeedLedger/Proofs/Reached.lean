import FeedLedger.Proofs.Attempt
import FeedLedger.Proofs.Builtin

namespace FeedLedger

/-- The coordinator of a session: the built-in schemas on the session's store. -/
def Coordinator.builtin (chunkSize : Int) (autocommitting : Bool) : Coordinator :=
  ⟨Registry.schema?, chunkSize, Link.store autocommitting⟩

/-- A ledger that calls on the session's store lead to, whatever outages they come through. -/
inductive Reached : Ledger → Prop
  | fresh : Reached Ledger.fresh
  | call {l : Ledger} (h : Reached l) (chunkSize : Int) (autocommitting : Bool) (outages : Outages) (c : Call) :
      Reached (c.run (Coordinator.builtin chunkSize autocommitting) outages l).ledger

theorem Coordinator.default_ne_autocommit (chunkSize : Int) (autocommitting : Bool) :
    (builtin chunkSize autocommitting).link.default ≠ Link.autocommit :=
  Link.default_store_ne_autocommit autocommitting

namespace Ledger

variable {c : Coordinator} {outages : Outages} {P : Store → Prop}

theorem ingestAll_keeps (h : c.link.default ≠ Link.autocommit)
    (hP : ∀ o rs chunks before after, Commits c.schemas o rs chunks before after → P before → P after)
    (queue : List (Submission × Nat)) {l : Ledger} (hl : P l.store) (inserts : List String) :
    P (ingestAll c outages queue l inserts).ledger.store := by
  induction queue generalizing l inserts with
  | nil => exact hl
  | cons entry rest ih =>
    obtain ⟨s, number⟩ := entry
    have hturn : P (l.takeTurn c outages s inserts).ledger.store := by
      rcases takeTurn_cases h outages s l inserts with
        ⟨f, -, hs⟩ | ⟨o, rs, chunks, -, -, -, hc⟩
      · rw [hs]
        exact hl
      · exact hP o rs chunks _ _ hc hl
    rw [ingestAll_cons]
    split
    · exact hturn
    · exact ih hturn _

theorem run_keeps (h : c.link.default ≠ Link.autocommit) (call : Call) (hempty : call = .createTables true → P .empty)
    (hP : ∀ o rs chunks before after, Commits c.schemas o rs chunks before after → P before → P after)
    {l : Ledger} (hl : P l.store) : P (call.run c outages l).ledger.store := by
  cases call with
  | ingest stream records offset =>
    rcases ingest_cases h outages stream offset records l [] with ⟨f, -, hs⟩ | ⟨o, rs, chunks, -, -, -, hc⟩
    · change P (l.ingest c outages stream records offset []).ledger.store
      rw [hs]
      exact hl
    · exact hP o rs chunks _ _ hc hl
  | setOffset stream offset =>
    rcases setOffset_cases c outages stream offset l [] with ⟨f, -, hs⟩ | ⟨o, -, -, hc⟩
    · change P (l.setOffset c outages stream offset []).ledger.store
      rw [hs]
      exact hl
    · exact hP o [] [] _ _ hc hl
  | submit workers batches =>
    change P (l.submit c outages workers batches).ledger.store
    simp only [submit]
    split
    · exact hl
    split
    · exact hl
    · exact ingestAll_keeps h hP _ hl []
  | createTables drop =>
    change P (l.createTables outages drop).ledger.store
    have hafter : P (if drop then Store.empty else l.store) := by
      split
      · rename_i hdrop
        exact hempty (by rw [hdrop])
      · exact hl
    simp only [createTables]
    split
    · exact hl
    · exact hafter
    · exact hafter

end Ledger

/-- What an empty store has and every committed batch keeps, holds at every ledger that is reached. -/
theorem Reached.holds {P : Store → Prop} (hempty : P .empty)
    (hP : ∀ o rs chunks before after, Commits Registry.schema? o rs chunks before after → P before → P after)
    {l : Ledger} (h : Reached l) : P l.store := by
  induction h with
  | fresh => exact hempty
  | call h chunkSize autocommitting outages c ih =>
    exact Ledger.run_keeps (Coordinator.default_ne_autocommit chunkSize autocommitting) c (fun _ => hempty) hP ih

theorem Store.Sound.executeOffset {before after : Store} (h : before.Sound) {stream : Value} {n : Int}
    (he : before.executeChunk (Chunk.offset stream n) = .ok after) : after.Sound := by
  obtain ⟨name, -, -, rfl⟩ := Store.withOffset_of_executeChunk h.laid he
  refine ⟨h.laid.executeChunk Catalog.streamOffsets_mem he, fun t ht => ?_⟩
  rw [Store.rows_withOffset_ne (Catalog.name_ne_of_recordTable ht)]
  exact h.numbered t ht

/-- A committed batch has settled in each table its own rows, and then put the offset of its stream in. -/
theorem Commits.written {o : BatchOrigin} {rs : List Record} {chunks : List Chunk} {before after : Store}
    (h : Commits Registry.schema? o rs chunks before after) (hs : before.Sound) :
    after.Sound ∧ ∃ mid : Store,
      (∀ table, Store.settled table (Batch.handed (IngestKey.batchName o.stream o.offset) table
        (Batch.validRecords Registry.schema? rs)) (before.rows table) = .ok (mid.rows table)) ∧
      ∃ name, Binding.forText o.stream = .cell (.text name) ∧ Binding.Fits o.offset ∧
        after = mid.withOffset name o.offset := by
  obtain ⟨mid, he, ho⟩ := h.executed
  obtain ⟨hmid, hsettled⟩ := Batch.settled_of_executeChunks (fun k hk => h.covers.stems hk) hs he
  obtain ⟨name, hname, hfits, rfl⟩ := Store.withOffset_of_executeChunk hmid.laid ho
  refine ⟨hmid.executeOffset ho, mid, fun table => ?_, name, hname, hfits, rfl⟩
  rw [← h.covers.rows table]
  exact hsettled table

/-- The offsets change by the offset of a committed batch alone. -/
theorem Commits.puts_offset {o : BatchOrigin} {rs : List Record} {chunks : List Chunk} {before after : Store}
    (h : Commits Registry.schema? o rs chunks before after) (hs : before.Sound) :
    ∃ name, Binding.forText o.stream = .cell (.text name) ∧
      after.rows Catalog.offsetsTable = Store.putOffset name o.offset (before.rows Catalog.offsetsTable) := by
  obtain ⟨-, mid, hsettled, name, hname, -, rfl⟩ := h.written hs
  have hsame : mid.rows Catalog.offsetsTable = before.rows Catalog.offsetsTable := by
    have hrows := hsettled Catalog.offsetsTable
    simp only [Store.settled] at hrows
    rw [Registry.schema?_offsetsTable] at hrows
    exact (Except.ok.inj hrows).symm
  refine ⟨name, hname, ?_⟩
  rw [Store.withOffset, Store.rows_set_self, hsame]

/-- A committed batch settles in each table its own rows, and its stream is found at its offset. -/
theorem Commits.settled {o : BatchOrigin} {rs : List Record} {chunks : List Chunk} {before after : Store}
    (h : Commits Registry.schema? o rs chunks before after) (hs : before.Sound) :
    after.Sound ∧
    (∀ table, table ≠ Catalog.offsetsTable →
      Store.settled table (Batch.handed (IngestKey.batchName o.stream o.offset) table
        (Batch.validRecords Registry.schema? rs)) (before.rows table) = .ok (after.rows table)) ∧
    ∃ name, Binding.forText o.stream = .cell (.text name) ∧ ∀ other,
      Keyed.get? other after.offsetEntries =
        if other = name then some (.integer o.offset) else Keyed.get? other before.offsetEntries := by
  obtain ⟨name, hname, hrows⟩ := h.puts_offset hs
  obtain ⟨hafter, mid, hsettled, _, -, -, rfl⟩ := h.written hs
  refine ⟨hafter, fun table hT => ?_, name, hname, fun stream => ?_⟩
  · rw [Store.rows_withOffset_ne hT]
    exact hsettled table
  · rw [Store.get?_offsetEntries, hrows, Store.find?_putOffset, ← Store.get?_offsetEntries]

theorem Commits.sound {o : BatchOrigin} {rs : List Record} {chunks : List Chunk} {before after : Store}
    (h : Commits Registry.schema? o rs chunks before after) (hs : before.Sound) : after.Sound := (h.settled hs).1

theorem Reached.sound {l : Ledger} (h : Reached l) : l.store.Sound :=
  h.holds Store.sound_empty fun _ _ _ _ _ hc hs => hc.sound hs

end FeedLedger
