import FeedLedger.Proofs.Reached

namespace FeedLedger

namespace Batch

/-- Whether a row of a valid record holds an integer beyond 64 bits. -/
def Oversized (valid : List ValidRecord) : Prop :=
  ∃ v ∈ valid, ∃ row ∈ v.rows, ∃ n, Value.int n ∈ row ∧ ¬Binding.Fits n

variable {rs : List Record}

theorem oversized_params {s : Schema} {t : Table} {conflict : Conflict} (h : s.Fits t conflict) (batch : String)
    {row : List Value} (hl : row.length = s.columns.length) (m : Nat) :
    Params.Oversized (Writer.params s batch m row) ↔ ∃ n, Value.int n ∈ row ∧ ¬Binding.Fits n := by
  rw [h.params_eq batch m hl]
  constructor
  · rintro ⟨q, hq, n, hn, hlarge⟩
    rcases List.mem_append.1 hq with hq | hq
    · refine ⟨n, ?_, hlarge⟩
      rw [← hn]
      exact (List.of_mem_zip (a := q.1) (b := q.2) hq).2
    · split at hq
      · rw [List.mem_singleton.1 hq] at hn
        cases hn
      · cases hq
  · rintro ⟨n, hn, hlarge⟩
    have hvalues : (s.columns.zip row).map (·.2) = row := List.map_snd_zip (Nat.le_of_eq hl)
    rw [← hvalues] at hn
    obtain ⟨q, hq, hqn⟩ := List.mem_map.1 hn
    exact ⟨q, List.mem_append_left _ hq, n, hqn, hlarge⟩

theorem oversized_iff (batch : String) (rs : List Record) :
    Oversized (validRecords Registry.schema? rs) ↔
      ∃ table, ∃ p ∈ handed batch table (validRecords Registry.schema? rs), p.Oversized := by
  constructor
  · rintro ⟨v, hv, row, hrow, n, hn, hlarge⟩
    obtain ⟨t, conflict, e⟩ := Registry.entry_of_schema? (schema?_of_valid hv).1
    obtain ⟨m, hm⟩ := params_mem_handed batch hv hrow
    have hover := oversized_params e.fits batch (ValidRecord.length_of_mem_rows hrow) m
    exact ⟨v.schema.table, _, hm, hover.2 ⟨n, hn, hlarge⟩⟩
  · rintro ⟨table, p, hp, hlarge⟩
    obtain ⟨v, hv, -, row, hrow, m, -, rfl⟩ := mem_handed hp
    obtain ⟨t, conflict, e⟩ := Registry.entry_of_schema? (schema?_of_valid hv).1
    obtain ⟨n, hn, hfits⟩ := (oversized_params e.fits batch (ValidRecord.length_of_mem_rows hrow) m).1 hlarge
    exact ⟨v, hv, row, hrow, n, hn, hfits⟩

/-- What is handed over for a table is settled there unless it is oversized. -/
theorem settled_cases {table : String} {ps : List Params}
    (hp : ∀ p ∈ ps, p ∈ handed batch table (validRecords Registry.schema? rs)) (rows : List Row) :
    (∃ p ∈ ps, p.Oversized) ∧ Store.settled table ps rows = .error .integerTooLarge ∨
      (∀ p ∈ ps, ¬p.Oversized) ∧ ∃ rows', Store.settled table ps rows = .ok rows' := by
  cases hs : Registry.schema? table with
  | none =>
    have hnone : ps = [] := by
      apply List.eq_nil_iff_forall_not_mem.2
      intro p hm
      have hnil := hp p hm
      rw [handed_eq_nil hs] at hnil
      cases hnil
    rw [hnone]
    exact .inr ⟨by simp, rows, settled_nil table rows⟩
  | some s =>
    obtain ⟨t, conflict, e⟩ := Registry.entry_of_schema? hs
    rw [e.settled_eq]
    exact e.fits.settleAll_cases (fun p hm => takes_of_mem_handed e (hp p hm)) rows

/-- A chunk of built-in schemas that is not executed holds an oversized row. -/
theorem Stems.executeChunk_error {batch : String} {k : Chunk} (h : Stems batch (validRecords Registry.schema? rs) k)
    {store : Store} (hs : store.Sound) {f : Failure} (he : store.executeChunk k = .error f) :
    (∃ p ∈ k.rows, p.Oversized) ∧ f = .integerTooLarge := by
  rw [h.executeChunk_eq hs] at he
  rcases settled_cases h.handed (store.rows k.table) with ⟨hlarge, hsettled⟩ | ⟨-, rows, hsettled⟩
  · rw [hsettled] at he
    cases he
    exact ⟨hlarge, rfl⟩
  · rw [hsettled] at he
    cases he

variable {o : BatchOrigin} {chunkSize : Int} {autocommitting : Bool} {before : Store} {inserts : List String} {b : Batch}

/-- A batch that is written has settled every row that it hands over. -/
theorem settled_of_write (hs : before.Sound) {u : Unit}
    (hw : Batch.write (.builtin chunkSize autocommitting) [] o (rs.map .ok) ⟨⟨before, inserts, []⟩, [], []⟩ = .ok u b) :
    b.work.store.Sound ∧
      (∀ table, Store.settled table
        (handed (IngestKey.batchName o.stream o.offset) table (validRecords Registry.schema? rs))
        (before.rows table) = .ok (b.work.store.rows table)) ∧
      Ledger.total (rowsWritten b.writers) = ((validRecords Registry.schema? rs).flatMap (·.rows)).length := by
  obtain ⟨rs', hrs, hexec, hcovers, htotal⟩ := write_ok hw
  obtain rfl : rs = rs' := (List.map_inj_right fun _ _ e => Except.ok.inj e).1 hrs
  generalize offered (.builtin chunkSize autocommitting) [] o (rs.map .ok) ⟨⟨before, inserts, []⟩, [], []⟩ = chunks at hexec hcovers
  have hcovers : Covers (IngestKey.batchName o.stream o.offset) (validRecords Registry.schema? rs) chunks := hcovers
  obtain ⟨hsound, hsettled⟩ := settled_of_executeChunks (fun k hk => hcovers.stems hk) hs hexec
  refine ⟨hsound, ?_, htotal⟩
  intro table
  rw [← hcovers.rows table]
  exact hsettled table

/-- A batch that is not written has handed over an oversized row. -/
theorem oversized_of_write_error (hc : 1 ≤ chunkSize) (hs : before.Sound) {f : Failure}
    (hw : Batch.write (.builtin chunkSize autocommitting) [] o (rs.map .ok) ⟨⟨before, inserts, []⟩, [], []⟩ =
      .error f b) : Oversized (validRecords Registry.schema? rs) ∧ f = .integerTooLarge := by
  obtain ⟨executed, last, -, hexec, hbegins, hfails⟩ := write_error hw
  rw [delivered_map] at hbegins
  have hstems : ∀ l ∈ executed ++ last.toList,
      Stems (IngestKey.batchName o.stream o.offset) (validRecords Registry.schema? rs) l :=
    fun l hl => hbegins.stems hl
  cases hfails with
  | source hsource =>
    obtain ⟨r, -, hr⟩ := List.mem_map.1 hsource
    cases hr
  | @writer v hv hm =>
    rw [delivered_map] at hv
    obtain ⟨t, conflict, e⟩ := Registry.entry_of_schema? (schema?_of_valid hv).1
    have hsize : ¬(Coordinator.builtin chunkSize autocommitting).chunkSize ≤ 0 := by
      change ¬chunkSize ≤ 0
      omega
    simp only [Writer.make] at hm
    rw [e.insert_ok, if_neg hsize] at hm
    cases hm
  | @chunk k hstops =>
    rcases hstops with hk | ⟨p, hp⟩
    swap
    · cases hp
    have hkstems := hstems k (by simp)
    obtain ⟨hsound, -⟩ := settled_of_executeChunks (fun l hl => hstems l (List.mem_append_left _ hl)) hs hexec
    obtain ⟨⟨p, hp, hlarge⟩, rfl⟩ := hkstems.executeChunk_error hsound hk
    exact ⟨(oversized_iff _ rs).2 ⟨k.table, p, hkstems.handed p hp, hlarge⟩, rfl⟩

/-- Writing a batch of built-in schemas fails exactly at an oversized row. -/
theorem write_cases (rs : List Record) (o : BatchOrigin) {chunkSize : Int} (hc : 1 ≤ chunkSize)
    (autocommitting : Bool) {before : Store} (hs : before.Sound) (inserts : List String) :
    Oversized (validRecords Registry.schema? rs) ∧ (∃ b,
      Batch.write (.builtin chunkSize autocommitting) [] o (rs.map .ok) ⟨⟨before, inserts, []⟩, [], []⟩ =
        .error .integerTooLarge b) ∨
    ¬Oversized (validRecords Registry.schema? rs) ∧ ∃ b,
      Batch.write (.builtin chunkSize autocommitting) [] o (rs.map .ok) ⟨⟨before, inserts, []⟩, [], []⟩ = .ok () b ∧
      b.work.store.Sound ∧
      (∀ table, Store.settled table
        (handed (IngestKey.batchName o.stream o.offset) table (validRecords Registry.schema? rs))
        (before.rows table) = .ok (b.work.store.rows table)) ∧
      Ledger.total (rowsWritten b.writers) = ((validRecords Registry.schema? rs).flatMap (·.rows)).length := by
  cases hw : Batch.write (.builtin chunkSize autocommitting) [] o (rs.map .ok) ⟨⟨before, inserts, []⟩, [], []⟩ with
  | ok u b =>
    obtain ⟨hsound, hrows, htotal⟩ := settled_of_write hs hw
    refine .inr ⟨?_, b, rfl, hsound, hrows, htotal⟩
    intro hlarge
    obtain ⟨table, p, hp, hover⟩ := (oversized_iff (IngestKey.batchName o.stream o.offset) rs).1 hlarge
    rcases settled_cases (fun q hq => hq) (before.rows table) with ⟨-, he⟩ | ⟨hsmall, -⟩
    · rw [hrows table] at he
      cases he
    · exact hsmall p hp hover
  | error f b =>
    obtain ⟨hlarge, rfl⟩ := oversized_of_write_error hc hs hw
    exact .inl ⟨hlarge, b, rfl⟩

end Batch

end FeedLedger
