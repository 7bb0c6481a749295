import FeedLedger.Proofs.Admission

namespace FeedLedger

namespace RowByRow

/-- The values of a row under its columns. A row without a natural key carries the ingest key of its place among the
batch's rows of its table. -/
def named (batch : String) (s : Schema) (place : Nat) (row : List Value) : Params :=
  s.columns.zip row ++
    if s.syntheticKey then [(Schema.ingestKeyColumn, .text (IngestKey.key batch s.table (.int place)))] else []

/-- Inserts one row under the policy of its table, if all its values have cells. -/
def insert (batch : String) (s : Schema) (place : Nat) (row : List Value) (store : Store) : Option Store :=
  match Catalog.table? s.table with
  | none => none
  | some t =>
    match BoundInsert.cells (t.bound (named batch s place row)) with
    | .error _ => none
    | .ok given => some (store.set s.table (t.settle s.policy (store.rows s.table) given))

/-- Inserts rows one after the other; `earlier` are the tables of the rows before them. -/
def insertAll (batch : String) : List (Schema × List Value) → List String → Store → Option Store
  | [], _, store => some store
  | (s, row) :: rest, earlier, store =>
    match insert batch s (earlier.count s.table) row store with
    | none => none
    | some store => insertAll batch rest (s.table :: earlier) store

/-- The rows of a batch in the order of its records. -/
def rows (records : List Record) : List (Schema × List Value) :=
  records.flatMap fun r =>
    match r.validate (Registry.schema? r.table) with
    | .error _ => []
    | .ok v => v.rows.map fun row => (v.schema, row)

/-- Stores an offset under the text of its stream. -/
def storeOffset (o : BatchOrigin) (store : Store) : Option Store :=
  match Binding.forText o.stream with
  | .cell (.text name) => if Binding.Fits o.offset then some (store.withOffset name o.offset) else none
  | _ => none

/-- Takes a batch in: its rows, and then its offset. Answers the number of rows. -/
def ingest (stream offset : Value) (records : List Record) (before : Store) : Option (Nat × Store) :=
  match Ledger.checkArguments stream offset with
  | .error _ => none
  | .ok o =>
    match insertAll (IngestKey.batchName o.stream o.offset) (rows records) [] before with
    | none => none
    | some store => (storeOffset o store).map fun after => ((rows records).length, after)

/-- A row of a built-in schema whose values suit its columns. -/
structure Suited (e : Schema × List Value) : Prop where
  known : Registry.schema? e.1.table = some e.1
  length : e.2.length = e.1.columns.length
  suits : ∀ t, Catalog.table? e.1.table = some t → ∀ q ∈ e.1.columns.zip e.2, t.Suits q

/-- The parameters of a table's rows among those of a batch, from the `n`th of the table on. -/
def placed (batch table : String) (n : Nat) (l : List (Schema × List Value)) : List Params :=
  match Registry.schema? table with
  | none => []
  | some s => Writer.paramsFrom s batch n ((l.filter (·.1.table = table)).map (·.2))

variable {batch : String} {l : List (Schema × List Value)}

theorem placed_self {s : Schema} (hs : Registry.schema? s.table = some s) (n : Nat) (row : List Value)
    (l : List (Schema × List Value)) :
    placed batch s.table n ((s, row) :: l) = Writer.params s batch n row :: placed batch s.table (n + 1) l := by
  simp only [placed]
  rw [hs, List.filter_cons_of_pos (by simp)]
  rfl

theorem placed_ne {table : String} {e : Schema × List Value} (h : e.1.table ≠ table) (n : Nat)
    (l : List (Schema × List Value)) : placed batch table n (e :: l) = placed batch table n l := by
  simp only [placed]
  rw [List.filter_cons_of_neg (by simpa using h)]

theorem insert_cases (batch : String) {s : Schema} {row : List Value} (h : Suited (s, row)) (place : Nat)
    (store : Store) :
    (∃ n, Value.int n ∈ row ∧ ¬Binding.Fits n) ∧ insert batch s place row store = none ∨
      (∀ n, Value.int n ∈ row → Binding.Fits n) ∧ ∃ after, insert batch s place row store = some after ∧
        (∀ rest, Store.settled s.table (Writer.params s batch place row :: rest) (store.rows s.table) =
          Store.settled s.table rest (after.rows s.table)) ∧
        ∀ table, table ≠ s.table → after.rows table = store.rows table := by
  obtain ⟨t, conflict, e⟩ := Registry.entry_of_schema? h.known
  have hparams : Writer.params s batch place row = named batch s place row := e.fits.params_eq batch place h.length
  have htakes := e.fits.takes_params batch place h.length (h.suits t e.listed)
  have hover := Batch.oversized_params e.fits batch h.length place
  simp only [insert]
  rw [e.listed, ← hparams]
  rcases htakes.cells_bound e.fits with ⟨hlarge, hc⟩ | ⟨hsmall, given, hc, -, -⟩
  · simp only [hc]
    exact .inl ⟨hover.1 hlarge, trivial⟩
  · simp only [hc]
    refine .inr ⟨fun n hn => ?_, _, rfl, fun rest => ?_, fun table hT => Store.rows_set_ne hT _ _⟩
    · by_contra hfits
      exact hsmall (hover.2 ⟨n, hn, hfits⟩)
    · rw [e.settled_eq, e.settled_eq, Table.settleAll, hc, Store.rows_set_self]

/-- Inserting rows one by one settles in each table its own rows in their order. -/
theorem settled_of_insertAll (hl : ∀ e ∈ l, Suited e) {earlier : List String} {before after : Store}
    (h : insertAll batch l earlier before = some after) (table : String) :
    Store.settled table (placed batch table (earlier.count table) l) (before.rows table) = .ok (after.rows table) := by
  induction l generalizing earlier before with
  | nil =>
    cases h
    simp only [placed]
    cases Registry.schema? table <;> exact Batch.settled_nil table _
  | cons e rest ih =>
    obtain ⟨s, row⟩ := e
    obtain ⟨hsuited, hlater⟩ := List.forall_mem_cons.1 hl
    rw [insertAll] at h
    rcases insert_cases batch hsuited (earlier.count s.table) before with
      ⟨-, hi⟩ | ⟨-, mid, hi, hself, hother⟩
    · rw [hi] at h
      cases h
    rw [hi] at h
    have hrest := ih hlater h
    by_cases hT : s.table = table
    · subst hT
      rw [List.count_cons_self] at hrest
      rw [placed_self hsuited.known, hself]
      exact hrest
    · rw [List.count_cons_of_ne hT, hother table fun e => hT e.symm] at hrest
      rw [placed_ne hT]
      exact hrest

/-- All rows are inserted unless one holds an integer beyond 64 bits. -/
theorem insertAll_isSome (batch : String) (hl : ∀ e ∈ l, Suited e) (earlier : List String) (before : Store) :
    (insertAll batch l earlier before).isSome = true ↔ ∀ e ∈ l, ∀ n, Value.int n ∈ e.2 → Binding.Fits n := by
  induction l generalizing earlier before with
  | nil => simp [insertAll]
  | cons e rest ih =>
    obtain ⟨s, row⟩ := e
    obtain ⟨hsuited, hlater⟩ := List.forall_mem_cons.1 hl
    rw [insertAll]
    rcases insert_cases batch hsuited (earlier.count s.table) before with
      ⟨⟨n, hn, hlarge⟩, hi⟩ | ⟨hsmall, mid, hi, -, -⟩
    · rw [hi]
      constructor
      · intro hnone
        cases hnone
      · intro hall
        exact absurd (hall (s, row) List.mem_cons_self n hn) hlarge
    · rw [hi]
      simp only
      rw [ih hlater]
      simp only [List.mem_cons, forall_eq_or_imp]
      exact ⟨fun h => ⟨hsmall, h⟩, fun h => h.2⟩

variable {records : List Record}

theorem rows_eq (records : List Record) :
    rows records = (Batch.validRecords Registry.schema? records).flatMap fun v => v.rows.map fun row => (v.schema, row) := by
  induction records with
  | nil => rfl
  | cons r rest ih =>
    rw [Batch.validRecords_cons, List.flatMap_append, ← ih]
    simp only [rows]
    rw [List.flatMap_cons]
    congr 1
    simp only [Batch.validRecords]
    cases hv : r.validate (Registry.schema? r.table) <;> simp [hv, Except.toOption]

theorem mem_rows {e : Schema × List Value} :
    e ∈ rows records ↔ ∃ v ∈ Batch.validRecords Registry.schema? records, e.1 = v.schema ∧ e.2 ∈ v.rows := by
  obtain ⟨s, row⟩ := e
  rw [rows_eq]
  simp only [List.mem_flatMap, List.mem_map, Prod.mk.injEq]
  constructor
  · rintro ⟨v, hv, q, hq, rfl, rfl⟩
    exact ⟨v, hv, rfl, hq⟩
  · rintro ⟨v, hv, rfl, hrow⟩
    exact ⟨v, hv, row, hrow, rfl, rfl⟩

theorem length_rows (records : List Record) :
    (rows records).length = ((Batch.validRecords Registry.schema? records).flatMap (·.rows)).length := by
  rw [rows_eq]
  simp [List.length_flatMap]

theorem suited_of_mem_rows {e : Schema × List Value} (h : e ∈ rows records) : Suited e := by
  obtain ⟨s, row⟩ := e
  obtain ⟨v, hv, rfl, hrow⟩ := mem_rows.1 h
  obtain ⟨hs, r, -, hvalid⟩ := Batch.schema?_of_valid hv
  refine ⟨hs, ValidRecord.length_of_mem_rows hrow, fun t ht => ?_⟩
  obtain ⟨t', conflict, e⟩ := Registry.entry_of_schema? hs
  rw [e.listed] at ht
  cases ht
  exact Record.suits_of_mem_rows e.fits hvalid hrow

theorem oversized_iff :
    Batch.Oversized (Batch.validRecords Registry.schema? records) ↔
      ¬∀ e ∈ rows records, ∀ n, Value.int n ∈ e.2 → Binding.Fits n := by
  constructor
  · rintro ⟨v, hv, row, hrow, n, hn, hlarge⟩ hall
    exact hlarge (hall (v.schema, row) (mem_rows.2 ⟨v, hv, rfl, hrow⟩) n hn)
  · intro h
    push Not at h
    obtain ⟨e, he, n, hn, hlarge⟩ := h
    obtain ⟨v, hv, -, hrow⟩ := mem_rows.1 he
    exact ⟨v, hv, e.2, hrow, n, hn, hlarge⟩

theorem placed_rows (batch table : String) (records : List Record) :
    placed batch table 0 (rows records) = Batch.handed batch table (Batch.validRecords Registry.schema? records) := by
  have hrows : ((rows records).filter (·.1.table = table)).map (·.2) =
      Batch.rowsOf table (Batch.validRecords Registry.schema? records) := by
    rw [rows_eq]
    simp only [Batch.rowsOf]
    induction Batch.validRecords Registry.schema? records with
    | nil => rfl
    | cons v rest ih =>
      rw [List.flatMap_cons, List.filter_append, List.map_append, ih]
      by_cases hT : v.schema.table = table <;> simp [hT, List.filter_map, Function.comp_def]
  simp only [placed]
  rw [hrows]
  cases hs : Registry.schema? table with
  | none => exact (Batch.handed_eq_nil hs batch records).symm
  | some s => exact (Batch.handed_eq hs batch records).symm

theorem executeChunk_offset_eq {store : Store} (h : store.Laid) (o : BatchOrigin) :
    match storeOffset o store with
    | some after => store.executeChunk (Chunk.offset o.stream o.offset) = .ok after
    | none => ∃ f, store.executeChunk (Chunk.offset o.stream o.offset) = .error f := by
  cases he : store.executeChunk (Chunk.offset o.stream o.offset) with
  | ok after =>
    obtain ⟨name, hname, hfits, rfl⟩ := Store.withOffset_of_executeChunk h he
    simp only [storeOffset]
    rw [hname]
    simp only [if_pos hfits]
  | error f =>
    simp only [storeOffset]
    split
    · rename_i after hs
      split at hs
      · rename_i name hname
        rw [Store.executeChunk_offset h hname] at he
        split at hs
        · rename_i hfits
          rw [if_pos hfits] at he
          cases he
        · cases hs
      · cases hs
    · exact ⟨f, rfl⟩

/-- What a batch comes to without outages, in chunks of any size, is what taking it in row by row comes to. -/
theorem ingest_eq {l : Ledger} (hl : l.store.Sound) {chunkSize : Int} (hc : 1 ≤ chunkSize) (autocommitting : Bool)
    (stream offset : Value) (records : List Record) :
    match ingest stream offset records l.store with
    | none =>
      ∃ f, (l.ingest (.builtin chunkSize autocommitting) [] stream (records.map .ok) offset []).result = .error f
    | some (n, after) =>
      (l.ingest (.builtin chunkSize autocommitting) [] stream (records.map .ok) offset []).result = .ok n ∧
        (l.ingest (.builtin chunkSize autocommitting) [] stream (records.map .ok) offset []).ledger.store = after := by
  simp only [ingest]
  cases ho : Ledger.checkArguments stream offset with
  | error f => exact ⟨f, (Ledger.ingest_invalid ho _ _ _ _).1⟩
  | ok o =>
    simp only
    have hsuited : ∀ e ∈ rows records, Suited e := fun e he => suited_of_mem_rows he
    have hsome := insertAll_isSome (IngestKey.batchName o.stream o.offset) hsuited [] l.store
    by_cases hlarge : Batch.Oversized (Batch.validRecords Registry.schema? records)
    · have hnone : insertAll (IngestKey.batchName o.stream o.offset) (rows records) [] l.store = none := by
        rw [← Option.not_isSome_iff_eq_none, hsome]
        exact oversized_iff.1 hlarge
      rw [hnone]
      exact ⟨_, (Ledger.ingest_oversized hl hc autocommitting [] ho hlarge).1⟩
    · obtain ⟨after, hafter⟩ := Option.isSome_iff_exists.1 (hsome.2 (not_not.1 fun h => hlarge (oversized_iff.2 h)))
      obtain ⟨mid, hsound, hsettled, hend⟩ := Ledger.ingest_small hl hc autocommitting [] ho hlarge
      have hmid : mid = after := by
        refine Store.ext fun table => ?_
        have hrow := settled_of_insertAll hsuited hafter table
        rw [List.count_nil, placed_rows, hsettled table] at hrow
        exact Except.ok.inj hrow
      rw [hafter]
      subst hmid
      simp only
      have hoffset := executeChunk_offset_eq hsound.laid o
      cases hs : storeOffset o mid with
      | some stored =>
        rw [hs] at hoffset
        rw [hoffset] at hend
        simp only [Option.map_some, length_rows]
        exact hend
      | none =>
        rw [hs] at hoffset
        obtain ⟨f, hf⟩ := hoffset
        rw [hf] at hend
        exact ⟨_, hend.1⟩

theorem count_of_ingest {stream offset : Value} {before after : Store} {n : Nat}
    (h : ingest stream offset records before = some (n, after)) : n = (rows records).length := by
  simp only [ingest] at h
  split at h
  · cases h
  split at h
  · cases h
  obtain ⟨stored, -, hpair⟩ := Option.map_eq_some_iff.1 h
  cases hpair
  rfl

end RowByRow

namespace Ledger

/-- At every ledger that is reached, whether a batch is taken in, what it answers and what it leaves do not depend on
the size of the chunks: they are those of inserting its rows one by one. -/
theorem ingest_eq_row_by_row {l : Ledger} (hl : Reached l) (stream offset : Value) (records : List Record)
    (c₁ c₂ : Int) (h₁ : 1 ≤ c₁) (h₂ : 1 ≤ c₂) (autocommitting : Bool) :
    let r (c : Int) := l.ingest (.builtin c autocommitting) [] stream (records.map .ok) offset []
    ((∃ n, (r c₁).result = .ok n) ↔ ∃ n, (r c₂).result = .ok n) ∧
    (∀ n, (r c₁).result = .ok n → (r c₂).result = .ok n ∧ (r c₂).ledger.store = (r c₁).ledger.store ∧
      RowByRow.ingest stream offset records l.store = some (n, (r c₁).ledger.store) ∧
      n = (RowByRow.rows records).length) ∧
    ((∃ f, (r c₁).result = .error f) → RowByRow.ingest stream offset records l.store = none) := by
  intro r
  have first := RowByRow.ingest_eq hl.sound h₁ autocommitting stream offset records
  have second := RowByRow.ingest_eq hl.sound h₂ autocommitting stream offset records
  cases href : RowByRow.ingest stream offset records l.store with
  | none =>
    rw [href] at first second
    obtain ⟨f, hf⟩ := first
    obtain ⟨g, hg⟩ := second
    have hr₁ : (r c₁).result = .error f := hf
    have hr₂ : (r c₂).result = .error g := hg
    simp [hr₁, hr₂]
  | some out =>
    obtain ⟨n, after⟩ := out
    rw [href] at first second
    have hr₁ : (r c₁).result = .ok n := first.1
    have hs₁ : (r c₁).ledger.store = after := first.2
    have hr₂ : (r c₂).result = .ok n := second.1
    have hs₂ : (r c₂).ledger.store = after := second.2
    have hcount : n = (RowByRow.rows records).length := RowByRow.count_of_ingest href
    simp [hr₁, hr₂, hs₁, hs₂, hcount]

end Ledger

/-- Liquidations around a sentiment record, one of them malformed, in chunks of one and of two. -/
theorem Ledger.mixed_batch_row_by_row :
    let records := [Record.liquidation (.int 1), Record.sentiment (.int 50), Record.liquidation .null,
      Record.liquidation (.int 1)]
    let r (c : Int) := Ledger.fresh.ingest (.builtin c false) [] (.text "s") (records.map .ok) (.int 3) []
    (1 : Int) ≤ 1 ∧ (1 : Int) ≤ 2 ∧ (r 1).result = .ok 3 ∧ (r 2).result = .ok 3 ∧
      (r 2).ledger.store = (r 1).ledger.store ∧
      RowByRow.ingest (.text "s") (.int 3) records .empty = some (3, (r 1).ledger.store) := by
  intro records r
  obtain ⟨-, hok, -⟩ := ingest_eq_row_by_row .fresh (.text "s") (.int 3) records 1 2 (by decide) (by decide) false
  have hfirst : (r 1).result = .ok 3 := eq_ok_of_toOption (by decide +kernel)
  obtain ⟨hsecond, hstores, hrow, -⟩ := hok 3 hfirst
  exact ⟨by decide, by decide, hfirst, hsecond, hstores, hrow⟩

end FeedLedger
