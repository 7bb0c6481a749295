import FeedLedger.Proofs.Refused
import FeedLedger.Registry

namespace FeedLedger

theorem Keyed.get?_ofPairs_map {α : Type} (f : String → α) (columns : List String) (column : String) :
    get? column (ofPairs (columns.map fun c => (c, f c))) = if column ∈ columns then some (f column) else none := by
  rw [get?_ofPairs, ← List.map_reverse, get?_graph]
  simp only [List.mem_reverse]

/-- The parameters of a row under a schema: each value stands under its column and, where the schema asks for one, the
key under its own; no other column is named. -/
structure Schema.Pairs (s : Schema) (key : String) (row : List Value) (p : Params) : Prop where
  cells : ∀ q ∈ s.columns.zip row, (s.syntheticKey = true → q.1 ≠ ingestKeyColumn) → Keyed.get? q.1 p = some q.2
  key : s.syntheticKey = true → Keyed.get? ingestKeyColumn p = some (.text key)
  named : ∀ column, (Keyed.get? column p).isSome ↔ column ∈ s.writeColumns

theorem ValidRecord.eq_rowOf_of_mem_rows {v : ValidRecord} {row : List Value} (h : row ∈ v.rows) :
    ∃ values, row = v.rowOf values := by
  unfold rows sideRows at h
  split at h
  · exact ⟨v.values, List.mem_singleton.1 h⟩
  · simp only [List.mem_append, List.mem_map] at h
    obtain ⟨level, _, rfl⟩ | ⟨level, _, rfl⟩ := h
    · exact ⟨_, rfl⟩
    · exact ⟨_, rfl⟩

/-- The parameters of a projected row pair it with the columns of its schema, also where a column is listed twice. -/
theorem Writer.pairs_params {v : ValidRecord} {row : List Value} (h : row ∈ v.rows) (batch : String) (n : Nat) :
    v.schema.Pairs (IngestKey.key batch v.schema.table (.int n)) row (params v.schema batch n row) := by
  obtain ⟨values, rfl⟩ := v.eq_rowOf_of_mem_rows h
  have hzip : v.schema.columns.zip (v.rowOf values) =
      v.schema.columns.map fun c => (c, (Keyed.get? c values).getD .null) := Keyed.zip_map _ _
  have hget : ∀ column, Keyed.get? column (Keyed.ofPairs (v.schema.columns.zip (v.rowOf values))) =
      if column ∈ v.schema.columns then some ((Keyed.get? column values).getD .null) else none := by
    intro column
    rw [hzip]
    exact Keyed.get?_ofPairs_map _ _ column
  have hcell : ∀ q ∈ v.schema.columns.zip (v.rowOf values),
      Keyed.get? q.1 (Keyed.ofPairs (v.schema.columns.zip (v.rowOf values))) = some q.2 := by
    intro q hq
    rw [hget]
    rw [hzip] at hq
    obtain ⟨c, hc, rfl⟩ := List.mem_map.1 hq
    exact if_pos hc
  simp only [params]
  by_cases hs : v.schema.syntheticKey = true
  · rw [if_pos hs]
    constructor
    case cells =>
      intro q hq hne
      rw [Keyed.get?_put_ne (hne hs)]
      exact hcell q hq
    case key => exact fun _ => Keyed.get?_put_self _ _ _
    case named =>
      intro column
      rw [Schema.writeColumns, if_pos hs, Keyed.get?_put, hget]
      by_cases hk : column = Schema.ingestKeyColumn
      · simp [hk]
      · by_cases hm : column ∈ v.schema.columns <;> simp [hk, hm]
  · rw [if_neg hs]
    constructor
    case cells => exact fun q hq _ => hcell q hq
    case key => exact fun hsynthetic => absurd hsynthetic hs
    case named =>
      intro column
      rw [Schema.writeColumns, if_neg hs, hget]
      by_cases hm : column ∈ v.schema.columns <;> simp [hm]

theorem Writer.getElem?_paramsFrom (schema : Schema) (batch : String) (n i : Nat) (rows : List (List Value)) :
    (paramsFrom schema batch n rows)[i]? = rows[i]?.map (params schema batch (n + i)) := by
  induction rows generalizing n i with
  | nil => rfl
  | cons row rest ih =>
    cases i with
    | zero => rfl
    | succ i =>
      simp only [paramsFrom, List.getElem?_cons_succ, ih]
      rw [Nat.add_right_comm, Nat.add_assoc]

namespace Batch

/-- The parameters that stand where the rows of a record do, behind those of earlier records for its table. -/
def own (chunks : List Chunk) (earlier : List ValidRecord) (v : ValidRecord) : List Params :=
  ((sent v.schema.table chunks).drop (rowsOf v.schema.table earlier).length).take v.rows.length

/-- The parameters that stand where the rows of a record do pair those rows with the columns of its schema. -/
def PairsOwn (batch : String) (chunks : List Chunk) (earlier : List ValidRecord) (v : ValidRecord) : Prop :=
  ∀ i p, (own chunks earlier v)[i]? = some p → ∃ row, v.rows[i]? = some row ∧
    v.schema.Pairs
      (IngestKey.key batch v.schema.table (.int ((rowsOf v.schema.table earlier).length + i : Nat))) row p

/-- The chunks for the table of a record are executed by the statement of its schema. -/
def StatesOwn (chunks : List Chunk) (v : ValidRecord) : Prop :=
  ∀ k ∈ chunks, k.table = v.schema.table → v.schema.insert dialect = .ok k.statement

/-- The conflict clause of a schema's statement: its policy and, for an update, the columns that are compared, those that
are set, and whether the time of change is renewed. -/
def clause (s : Schema) : Except Failure Conflict := (s.insert dialect).map (·.conflict)

/-- The chunks for the table of a record are settled as its schema says. -/
def SettlesOwn (chunks : List Chunk) (v : ValidRecord) : Prop :=
  ∀ k ∈ chunks, k.table = v.schema.table → clause v.schema = .ok k.statement.conflict

variable {batch : String} {valid earlier later : List ValidRecord} {chunks : List Chunk} {v v₀ : ValidRecord}

theorem rowsOf_split (hv : valid = earlier ++ v :: later) :
    rowsOf v.schema.table valid = rowsOf v.schema.table earlier ++ v.rows ++ rowsOf v.schema.table later := by
  simp [hv, rowsOf]

theorem exists_firstOf (hv : v ∈ valid) : ∃ v₀, firstOf v.schema.table valid = some v₀ := by
  cases h : firstOf v.schema.table valid with
  | some v₀ => exact ⟨v₀, rfl⟩
  | none =>
    have hnone := List.find?_eq_none.1 h v hv
    simp at hnone

theorem Begins.insert_of_firstOf (h : Begins batch valid chunks) {k : Chunk} (hk : k ∈ chunks) {table : String}
    (htable : k.table = table) (hfirst : firstOf table valid = some v₀) :
    v₀.schema.insert dialect = .ok k.statement := by
  obtain ⟨u, hu, hi⟩ := h.stated k hk
  rw [htable, hfirst] at hu
  cases hu
  exact hi

theorem Begins.statesOwn (h : Begins batch valid chunks) (hfirst : firstOf v.schema.table valid = some v₀)
    (hsame : v₀.schema.insert dialect = v.schema.insert dialect) : StatesOwn chunks v := by
  intro k hk htable
  rw [← hsame]
  exact h.insert_of_firstOf hk htable hfirst

theorem Begins.settlesOwn (h : Begins batch valid chunks) (hfirst : firstOf v.schema.table valid = some v₀)
    (hsame : clause v₀.schema = clause v.schema) : SettlesOwn chunks v := by
  intro k hk htable
  have hstated : v₀.schema.insert dialect = .ok k.statement := h.insert_of_firstOf hk htable hfirst
  rw [← hsame, clause, hstated]
  rfl

theorem Begins.pairsOwn (h : Begins batch valid chunks) (hv : valid = earlier ++ v :: later)
    (hfirst : firstOf v.schema.table valid = some v₀) (hcolumns : v₀.schema.columns = v.schema.columns)
    (hsynthetic : v₀.schema.syntheticKey = v.schema.syntheticKey) : PairsOwn batch chunks earlier v := by
  intro i p hp
  rw [own, List.getElem?_take] at hp
  split at hp
  swap
  · cases hp
  rename_i hi
  rw [List.getElem?_drop] at hp
  -- what was offered is a beginning of what is handed over, so the rows stand at the same places
  have hplace : (handed batch v.schema.table valid)[(rowsOf v.schema.table earlier).length + i]? = some p := by
    obtain ⟨rest, hrest⟩ := h.rows v.schema.table
    obtain ⟨hlt, -⟩ := List.getElem?_eq_some_iff.1 hp
    rw [← hrest, List.getElem?_append_left hlt]
    exact hp
  have hrow : (rowsOf v.schema.table valid)[(rowsOf v.schema.table earlier).length + i]? = some v.rows[i] := by
    rw [rowsOf_split hv, List.append_assoc, List.getElem?_append_right (by omega), Nat.add_sub_cancel_left,
      List.getElem?_append_left hi]
    exact List.getElem?_eq_getElem hi
  have hparams : p = Writer.params v.schema batch ((rowsOf v.schema.table earlier).length + i) v.rows[i] := by
    have htable : v₀.schema.table = v.schema.table := table_of_firstOf hfirst
    rw [handed, hfirst] at hplace
    simp only [Writer.getElem?_paramsFrom, hrow, Option.map_some, Option.some.injEq, Nat.zero_add] at hplace
    rw [← hplace]
    simp only [Writer.params, hcolumns, hsynthetic, htable]
  refine ⟨v.rows[i], List.getElem?_eq_getElem hi, ?_⟩
  rw [hparams]
  exact Writer.pairs_params (List.getElem_mem hi) batch _

theorem Covers.length_own (h : Covers batch valid chunks) (hv : valid = earlier ++ v :: later) :
    (own chunks earlier v).length = v.rows.length := by
  have hlength : (sent v.schema.table chunks).length = (rowsOf v.schema.table earlier).length + v.rows.length +
      (rowsOf v.schema.table later).length := by
    rw [h.rows, length_handed, rowsOf_split hv]
    simp only [List.length_append]
  rw [own, List.length_take, List.length_drop]
  omega

/-- A batch that is written has offered all rows of the records that were delivered. -/
theorem covers_of_write {c : Coordinator} {outages : Outages} {o : BatchOrigin}
    {records : List (Except Failure Record)} {before : Store} {inserts : List String} {b : Batch}
    (h : write c outages o records ⟨⟨before, inserts, []⟩, [], []⟩ = .ok () b) :
    Covers (IngestKey.batchName o.stream o.offset) (validRecords c.schemas (delivered records))
      (offered c outages o records ⟨⟨before, inserts, []⟩, [], []⟩) := by
  obtain ⟨rs, hrs, -, hcovers, -⟩ := write_ok h
  have hdelivered : delivered records = rs := by rw [hrs, delivered_map]
  rw [hdelivered]
  exact hcovers

/-- What a batch offers is a beginning of what its valid records hand over, also where it fails. -/
theorem begins_offered (c : Coordinator) (outages : Outages) (o : BatchOrigin) (records : List (Except Failure Record))
    (before : Store) (inserts : List String) :
    Begins (IngestKey.batchName o.stream o.offset) (validRecords c.schemas (delivered records))
      (offered c outages o records ⟨⟨before, inserts, []⟩, [], []⟩) := by
  cases hb : write c outages o records ⟨⟨before, inserts, []⟩, [], []⟩ with
  | ok u b => exact (covers_of_write hb).begins List.prefix_rfl
  | error f b =>
    obtain ⟨executed, last, hoffered, -, hbegins, -⟩ := write_error hb
    rw [hoffered]
    exact hbegins

/-- Whatever records a batch holds and whatever it fails at, what it offers to the store for the rows of a valid record
is the record's own as far as its schema agrees with that of the first valid record for its table. Where the columns and
the ingest key agree, the parameters pair the rows with the columns of the record's schema; where the statements agree,
the rows are executed by the schema's statement, and where only the conflict clauses do, they are settled by its clause.
A batch that is written has offered all rows, and its chunks have been executed. -/
theorem rows_are_paired_with_their_own_columns (c : Coordinator) (outages : Outages) (o : BatchOrigin)
    (records : List (Except Failure Record)) (before : Store) (inserts : List String) :
    let start : Batch := ⟨⟨before, inserts, []⟩, [], []⟩
    let batch := IngestKey.batchName o.stream o.offset
    let valid := validRecords c.schemas (delivered records)
    let chunks := offered c outages o records start
    (∀ b, write c outages o records start = .ok () b → before.executeChunks chunks = .ok b.work.store) ∧
    (∀ f b, write c outages o records start = .error f b → ∃ executed last, chunks = executed ++ Option.toList last ∧
      before.executeChunks executed = .ok b.work.store) ∧
    ∀ earlier v later, valid = earlier ++ v :: later →
      (∀ b, write c outages o records start = .ok () b → (own chunks earlier v).length = v.rows.length) ∧
      ∃ v₀, firstOf v.schema.table valid = some v₀ ∧
        (v₀.schema.insert dialect = v.schema.insert dialect → StatesOwn chunks v) ∧
        (clause v₀.schema = clause v.schema → SettlesOwn chunks v) ∧
        (v₀.schema.columns = v.schema.columns → v₀.schema.syntheticKey = v.schema.syntheticKey →
          PairsOwn batch chunks earlier v) := by
  intro start batch valid chunks
  refine ⟨?_, ?_, ?_⟩
  · intro b hb
    obtain ⟨-, -, hexec, -⟩ := write_ok hb
    exact hexec
  · intro f b hb
    obtain ⟨executed, last, hchunks, hexec, -⟩ := write_error hb
    exact ⟨executed, last, hchunks, hexec⟩
  · intro earlier v later hv
    have hmem : v ∈ valid := by simp [hv]
    obtain ⟨v₀, hfirst⟩ := exists_firstOf hmem
    have hbegins : Begins batch valid chunks := begins_offered c outages o records before inserts
    refine ⟨fun b hb => (covers_of_write hb).length_own hv, v₀, hfirst, ?_, ?_, ?_⟩
    · exact fun hsame => hbegins.statesOwn hfirst hsame
    · exact fun hsame => hbegins.settlesOwn hfirst hsame
    · exact fun hcolumns hsynthetic => hbegins.pairsOwn hv hfirst hcolumns hsynthetic

end Batch

theorem Schema.Pairs.get? {v : ValidRecord} {key : String} {values : List (String × Value)} {p : Params}
    (h : v.schema.Pairs key (v.rowOf values) p) (hs : v.schema.syntheticKey = false) {column : String}
    (hc : column ∈ v.schema.columns) : Keyed.get? column p = some ((Keyed.get? column values).getD .null) := by
  have hmem : (column, (Keyed.get? column values).getD .null) ∈ v.schema.columns.zip (v.rowOf values) := by
    have hzip : v.schema.columns.zip (v.rowOf values) =
        v.schema.columns.map fun c => (c, (Keyed.get? c values).getD .null) := Keyed.zip_map _ _
    rw [hzip]
    exact List.mem_map_of_mem hc
  exact h.cells _ hmem fun hsynthetic => by simp [hs] at hsynthetic

/-- The built-in schema of scores with its last two columns in the other order. -/
def Registry.reordered : Schema :=
  { fearGreedIndex with fields := fearGreedIndex.fields.take 3 ++ (fearGreedIndex.fields.drop 3).reverse }

/-- Two record tables whose schemas have the same target table and list its columns in different orders. -/
def Registry.twoOrders (table : String) : Option Schema :=
  if table = "a" then some fearGreedIndex else if table = "b" then some reordered else none

/-- A score with the price and the volume that go with it. -/
def Record.pricedSentiment (table : String) (time price volume : Int) : Record :=
  ⟨table, [("value", .int 50), ("classification", .text "Fear"), ("update_time", .int time), ("btc_price", .int price),
    ("btc_volume", .int volume)]⟩

/-- The valid record of a score under a schema that reads the same fields. -/
def Record.validSentiment (s : Schema) (table : String) (time price volume : Int) : ValidRecord :=
  ⟨s, (pricedSentiment table time price volume).fieldValues s, pricedSentiment table time price volume⟩

namespace Batch

/-- In one order of columns each row keeps its own, whatever chunk it comes in. -/
theorem second_score_is_paired :
    let c : Coordinator := ⟨Registry.schema?, 1, Link.store false⟩
    let o : BatchOrigin := ⟨.text "s", 5⟩
    let first := Record.pricedSentiment "fear_greed_index" 1700000000 1 2
    let second := Record.pricedSentiment "fear_greed_index" 1700000001 3 4
    let chunks := offered c [] o [.ok first, .ok second] ⟨⟨.empty, [], []⟩, [], []⟩
    let earlier := [Record.validSentiment Registry.fearGreedIndex "fear_greed_index" 1700000000 1 2]
    let v := Record.validSentiment Registry.fearGreedIndex "fear_greed_index" 1700000001 3 4
    (own chunks earlier v).length = 1 ∧ StatesOwn chunks v ∧ SettlesOwn chunks v ∧
      PairsOwn (IngestKey.batchName o.stream o.offset) chunks earlier v := by
  intro c o first second chunks earlier v
  have hvalid : validRecords c.schemas (delivered [.ok first, .ok second]) = earlier ++ v :: [] := rfl
  obtain ⟨-, -, hpaired⟩ := rows_are_paired_with_their_own_columns c [] o [.ok first, .ok second] .empty []
  obtain ⟨hlength, v₀, hfirst, hstates, hsettles, hpairs⟩ := hpaired _ _ _ hvalid
  obtain ⟨b, hb⟩ : ∃ b, write c [] o [.ok first, .ok second] ⟨⟨.empty, [], []⟩, [], []⟩ = .ok () b := by
    apply write_of_isWritten
    decide +kernel
  rw [hvalid] at hfirst
  cases hfirst
  exact ⟨hlength b hb, hstates rfl, hsettles rfl, hpairs rfl rfl⟩

/-- Where two schemas share a table, the first record of a batch decides the order of the columns: the price of the
second one is bound to the column of its volume. -/
theorem other_order_is_not_its_own :
    ¬∀ (c : Coordinator) (outages : Outages) (o : BatchOrigin) (records : List (Except Failure Record)) (before : Store)
      (inserts : List String) (earlier : List ValidRecord) (v : ValidRecord) (later : List ValidRecord),
      validRecords c.schemas (delivered records) = earlier ++ v :: later →
        PairsOwn (IngestKey.batchName o.stream o.offset)
          (offered c outages o records ⟨⟨before, inserts, []⟩, [], []⟩) earlier v := by
  intro h
  let chunks := offered ⟨Registry.twoOrders, 1000, Link.store false⟩ [] ⟨.text "s", 5⟩
    [.ok (.pricedSentiment "a" 1700000000 1 2), .ok (.pricedSentiment "b" 1700000001 3 4)]
    ⟨⟨.empty, [], []⟩, [], []⟩
  let first := Record.validSentiment Registry.fearGreedIndex "a" 1700000000 1 2
  let second := Record.validSentiment Registry.reordered "b" 1700000001 3 4
  have hpairs : PairsOwn (IngestKey.batchName (.text "s") 5) chunks [first] second :=
    h ⟨Registry.twoOrders, 1000, Link.store false⟩ [] ⟨.text "s", 5⟩ _ .empty [] [first] second [] rfl
  have hbound : ((own chunks [first] second)[0]?.bind (Keyed.get? "btc_price")).bind Value.toInt? = some 4 := by
    decide +kernel
  have hprice : ((Keyed.get? "btc_price" second.values).getD .null).toInt? = some 3 := by decide +kernel
  cases hp : (own chunks [first] second)[0]? with
  | none =>
    rw [hp] at hbound
    cases hbound
  | some p =>
    obtain ⟨row, hrow, hrowPairs⟩ := hpairs 0 p hp
    obtain rfl : second.rowOf second.values = row := Option.some.inj hrow
    have hget := hrowPairs.get? rfl (by decide : "btc_price" ∈ second.schema.columns)
    rw [hp, Option.bind_some, hget, Option.bind_some, hprice] at hbound
    cases hbound

end Batch

end FeedLedger
