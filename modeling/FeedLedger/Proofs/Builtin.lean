import FeedLedger.Proofs.Execution

namespace FeedLedger

namespace Store

/-- A store whose tables hold rows of their columns, with numbers in order where rows are numbered. -/
structure Sound (s : Store) : Prop where
  laid : s.Laid
  numbered : ∀ t ∈ Catalog.recordTables, Row.Numbered (s.rows t.name)

theorem sound_empty : empty.Sound := ⟨laid_empty, fun _ _ => Row.numbered_nil⟩

/-- The rows of a table after rows of parameters are settled under the built-in schema. -/
def settled (table : String) (ps : List Params) (rows : List Row) : Except Failure (List Row) :=
  match Registry.schema? table, Catalog.table? table with
  | some s, some t => t.settleAll s.policy ps rows
  | _, _ => .ok rows

end Store

namespace Registry

/-- The entry of a table: its schema and its definition, which fit. -/
structure Entry (table : String) (s : Schema) (t : Table) (conflict : Conflict) : Prop where
  known : schema? table = some s
  listed : Catalog.table? table = some t
  clause : s.conflict t = .ok conflict
  fits : s.Fits t conflict

variable {table : String} {s : Schema} {t : Table} {conflict : Conflict}

theorem entry_of_schema? (h : schema? table = some s) : ∃ t conflict, Entry table s t conflict := by
  obtain ⟨t, conflict, ht, hc, hf⟩ := fits_of_mem (mem_of_schema? h)
  rw [schema?_table h] at ht
  exact ⟨t, conflict, h, ht, hc, hf⟩

theorem schema?_offsetsTable : schema? Catalog.offsetsTable = none := by
  cases hs : schema? Catalog.offsetsTable with
  | none => rfl
  | some s =>
    obtain ⟨t, conflict, e⟩ := entry_of_schema? hs
    exact absurd (Catalog.table?_name e.listed) e.fits.apart

theorem Entry.name (e : Entry table s t conflict) : t.name = table := Catalog.table?_name e.listed

theorem Entry.mem_recordTables (e : Entry table s t conflict) : t ∈ Catalog.recordTables := by
  rcases List.mem_cons.1 (Catalog.mem_of_table? e.listed) with rfl | hm
  · exact absurd rfl e.fits.apart
  · exact hm

theorem Entry.sound (e : Entry table s t conflict) {store : Store} (h : store.Sound) :
    Row.Numbered (store.rows table) ∧ t.Lays (store.rows table) := by
  have hn := h.numbered t e.mem_recordTables
  have hl := h.laid t (Catalog.mem_of_table? e.listed)
  rw [e.name] at hn hl
  exact ⟨hn, hl⟩

theorem Entry.settled_eq (e : Entry table s t conflict) (ps : List Params) (rows : List Row) :
    Store.settled table ps rows = t.settleAll s.policy ps rows := by
  simp only [Store.settled]
  rw [e.known, e.listed]

theorem Entry.insert_eq (e : Entry table s t conflict) {i : Insert} (hi : s.insert Batch.dialect = .ok i) :
    i = ⟨t, t.columnNames.filter (s.writeColumns.contains ·), conflict⟩ := by
  obtain ⟨t', conflict', ht, hc, rfl⟩ := Schema.insert_eq_ok hi
  rw [schema?_table e.known, e.listed] at ht
  cases ht
  rw [e.clause] at hc
  cases hc
  rfl

theorem Entry.insert_ok (e : Entry table s t conflict) :
    s.insert Batch.dialect = .ok ⟨t, t.columnNames.filter (s.writeColumns.contains ·), conflict⟩ := by
  have hd : Dialect.ofName? Batch.dialect = some .sqlite := rfl
  simp only [Schema.insert]
  rw [schema?_table e.known, e.listed, hd]
  simp only [e.clause]
  rfl

/-- Rows that suit a schema are settled in its table when they are executed under its statement. -/
theorem Entry.executeChunk_eq (e : Entry table s t conflict) {ps : List Params} (hne : ps ≠ [])
    (hp : ∀ p ∈ ps, s.Takes t p) {store : Store} (hs : store.Sound) :
    store.executeChunk ⟨⟨t, t.columnNames.filter (s.writeColumns.contains ·), conflict⟩, ps⟩ =
      (t.settleAll s.policy ps (store.rows table)).map (store.set table) := by
  obtain ⟨hn, hl⟩ := e.sound hs
  rw [← e.name] at hn hl ⊢
  exact e.fits.executeChunk_eq hne hp hn hl

theorem Entry.sound_of_executeChunk (e : Entry table s t conflict) {ps : List Params} (hne : ps ≠ [])
    (hp : ∀ p ∈ ps, s.Takes t p) {store store' : Store} (hs : store.Sound)
    (he : store.executeChunk ⟨⟨t, t.columnNames.filter (s.writeColumns.contains ·), conflict⟩, ps⟩ = .ok store') :
    store'.Sound := by
  obtain ⟨hn, hl⟩ := e.sound hs
  refine ⟨hs.laid.executeChunk (Catalog.mem_of_table? e.listed) he, fun u hu => ?_⟩
  rw [e.executeChunk_eq hne hp hs] at he
  cases hr : t.settleAll s.policy ps (store.rows table) with
  | error f =>
    rw [hr] at he
    cases he
  | ok rows =>
    rw [hr] at he
    cases he
    by_cases hT : u.name = table
    · rw [hT, Store.rows_set_self]
      exact (e.fits.settleAll_keeps hp hn hl hr).1
    · rw [Store.rows_set_ne hT]
      exact hs.numbered u hu

end Registry

namespace Batch

variable {rs : List Record} {v : ValidRecord} {batch table : String} {p : Params}

theorem schema?_of_validate {r : Record} (hv : r.validate (Registry.schema? r.table) = .ok v) :
    Registry.schema? v.schema.table = some v.schema ∧ r.validate (some v.schema) = .ok v := by
  cases hs : Registry.schema? r.table with
  | none =>
    rw [hs] at hv
    cases hv
  | some s =>
    rw [hs] at hv
    rw [Record.schema_of_validate hv, Registry.schema?_table hs]
    exact ⟨hs, hv⟩

theorem schema?_of_valid (h : v ∈ validRecords Registry.schema? rs) :
    Registry.schema? v.schema.table = some v.schema ∧ ∃ r ∈ rs, r.validate (some v.schema) = .ok v := by
  obtain ⟨r, hr, hv⟩ := mem_validRecords.1 h
  obtain ⟨hknown, hvalid⟩ := schema?_of_validate hv
  exact ⟨hknown, r, hr, hvalid⟩

theorem schema_of_firstOf {v₀ : ValidRecord} (h₀ : firstOf table (validRecords Registry.schema? rs) = some v₀)
    (h : v ∈ validRecords Registry.schema? rs) (ht : v.schema.table = table) : v.schema = v₀.schema := by
  have hv := (schema?_of_valid h).1
  have hv₀ := (schema?_of_valid (mem_of_firstOf h₀)).1
  rw [ht] at hv
  rw [table_of_firstOf h₀] at hv₀
  exact Option.some.inj (hv.symm.trans hv₀)

theorem length_of_mem_rowsOf {s : Schema} (hs : Registry.schema? table = some s) {row : List Value}
    (h : row ∈ rowsOf table (validRecords Registry.schema? rs)) : row.length = s.columns.length := by
  obtain ⟨v, hv, hrow⟩ := List.mem_flatMap.1 h
  obtain ⟨hvalid, ht⟩ := List.mem_filter.1 hv
  have htable : v.schema.table = table := by simpa using ht
  have hknown := (schema?_of_valid hvalid).1
  rw [htable, hs] at hknown
  rw [ValidRecord.length_of_mem_rows hrow, Option.some.inj hknown]

/-- What is handed over for a table is laid out by its schema. -/
theorem handed_eq {s : Schema} (hs : Registry.schema? table = some s) (batch : String) (rs : List Record) :
    handed batch table (validRecords Registry.schema? rs) =
      Writer.paramsFrom s batch 0 (rowsOf table (validRecords Registry.schema? rs)) := by
  simp only [handed]
  split
  · rename_i hf
    rw [rowsOf_of_firstOf_eq_none hf]
    rfl
  · rename_i v hf
    have hv := (schema?_of_valid (mem_of_firstOf hf)).1
    rw [table_of_firstOf hf, hs] at hv
    rw [Option.some.inj hv]

theorem mem_handed (h : p ∈ handed batch table (validRecords Registry.schema? rs)) :
    ∃ v ∈ validRecords Registry.schema? rs, v.schema.table = table ∧
      ∃ row ∈ v.rows, ∃ n < (rowsOf table (validRecords Registry.schema? rs)).length,
        p = Writer.params v.schema batch n row := by
  simp only [handed] at h
  split at h
  · cases h
  rename_i v₀ h₀
  obtain ⟨row, hrow, n, -, hn, rfl⟩ := Writer.mem_paramsFrom h
  rw [Nat.zero_add] at hn
  obtain ⟨v, hv, hmem⟩ := List.mem_flatMap.1 hrow
  obtain ⟨hvalid, ht⟩ := List.mem_filter.1 hv
  have htable : v.schema.table = table := by simpa using ht
  rw [← schema_of_firstOf h₀ hvalid htable]
  exact ⟨v, hvalid, htable, row, hmem, n, hn, rfl⟩

theorem handed_eq_nil (hs : Registry.schema? table = none) (batch : String) (rs : List Record) :
    handed batch table (validRecords Registry.schema? rs) = [] := by
  apply List.eq_nil_iff_forall_not_mem.2
  intro p hp
  obtain ⟨v, hv, rfl, -⟩ := mem_handed hp
  rw [(schema?_of_valid hv).1] at hs
  cases hs

theorem params_mem_handed (batch : String) (hv : v ∈ validRecords Registry.schema? rs) {row : List Value}
    (hrow : row ∈ v.rows) :
    ∃ m, Writer.params v.schema batch m row ∈ handed batch v.schema.table (validRecords Registry.schema? rs) := by
  have hmem : row ∈ rowsOf v.schema.table (validRecords Registry.schema? rs) :=
    List.mem_flatMap.2 ⟨v, List.mem_filter.2 ⟨hv, by simp⟩, hrow⟩
  rw [handed_eq (schema?_of_valid hv).1]
  exact Writer.params_mem_paramsFrom v.schema batch 0 hmem

/-- What is handed over for a table can be settled in it. -/
theorem takes_of_mem_handed {s : Schema} {t : Table} {conflict : Conflict} (e : Registry.Entry table s t conflict)
    (h : p ∈ handed batch table (validRecords Registry.schema? rs)) : s.Takes t p := by
  obtain ⟨v, hv, ht, row, hrow, n, -, rfl⟩ := mem_handed h
  obtain ⟨hs, r, -, hvalid⟩ := schema?_of_valid hv
  rw [ht, e.known] at hs
  have hschema : s = v.schema := Option.some.inj hs
  rw [← hschema] at hvalid ⊢
  have hl : row.length = s.columns.length := by
    rw [ValidRecord.length_of_mem_rows hrow, ← hschema]
  exact e.fits.takes_params batch n hl (Record.suits_of_mem_rows e.fits hvalid hrow)

theorem Stems.entry {k : Chunk} (h : Stems batch (validRecords Registry.schema? rs) k) :
    ∃ s t conflict, Registry.Entry k.table s t conflict ∧
      k.statement = ⟨t, t.columnNames.filter (s.writeColumns.contains ·), conflict⟩ := by
  obtain ⟨v, hv, hi⟩ := h.stated
  have hs := (schema?_of_valid (mem_of_firstOf hv)).1
  rw [table_of_firstOf hv] at hs
  obtain ⟨t, conflict, e⟩ := Registry.entry_of_schema? hs
  exact ⟨v.schema, t, conflict, e, e.insert_eq hi⟩

/-- Executing such a chunk settles its rows in its table. -/
theorem Stems.executeChunk_eq {k : Chunk} (h : Stems batch (validRecords Registry.schema? rs) k) {store : Store}
    (hs : store.Sound) :
    store.executeChunk k = (Store.settled k.table k.rows (store.rows k.table)).map (store.set k.table) := by
  obtain ⟨s, t, conflict, e, hstatement⟩ := h.entry
  have heq := e.executeChunk_eq h.filled (fun p hp => takes_of_mem_handed e (h.handed p hp)) hs
  rw [← hstatement] at heq
  rw [e.settled_eq]
  exact heq

theorem Stems.sound {k : Chunk} (h : Stems batch (validRecords Registry.schema? rs) k) {store store' : Store}
    (hs : store.Sound) (he : store.executeChunk k = .ok store') : store'.Sound := by
  obtain ⟨s, t, conflict, e, hstatement⟩ := h.entry
  apply e.sound_of_executeChunk h.filled (fun p hp => takes_of_mem_handed e (h.handed p hp)) hs
  rw [← hstatement]
  exact he

theorem settled_append {first : List Params} {rows rows' : List Row} (h : Store.settled table first rows = .ok rows')
    (rest : List Params) : Store.settled table (first ++ rest) rows = Store.settled table rest rows' := by
  simp only [Store.settled] at h ⊢
  cases hs : Registry.schema? table with
  | none =>
    rw [hs] at h
    exact h
  | some s =>
    cases ht : Catalog.table? table with
    | none =>
      rw [hs, ht] at h
      exact h
    | some t =>
      rw [hs, ht] at h
      exact Table.settleAll_append h rest

theorem settled_nil (table : String) (rows : List Row) : Store.settled table [] rows = .ok rows := by
  simp only [Store.settled]
  split <;> rfl

/-- Executing chunks in any order settles in each table the rows that were sent to it. -/
theorem settled_of_executeChunks {chunks : List Chunk}
    (h : ∀ k ∈ chunks, Stems batch (validRecords Registry.schema? rs) k) {before after : Store} (hs : before.Sound)
    (he : before.executeChunks chunks = .ok after) :
    after.Sound ∧ ∀ table, Store.settled table (sent table chunks) (before.rows table) = .ok (after.rows table) := by
  induction chunks generalizing before with
  | nil =>
    cases he
    exact ⟨hs, fun table => settled_nil table _⟩
  | cons k rest ih =>
    rw [Store.executeChunks] at he
    split at he
    · cases he
    rename_i mid hm
    have hk := h k List.mem_cons_self
    obtain ⟨hsound, hrest⟩ := ih (fun l hl => h l (List.mem_cons_of_mem _ hl)) (hk.sound hs hm) he
    refine ⟨hsound, fun table => ?_⟩
    have hsent : sent table (k :: rest) = sent table [k] ++ sent table rest := sent_append table [k] rest
    have hone : Store.settled table (sent table [k]) (before.rows table) = .ok (mid.rows table) := by
      by_cases hT : k.table = table
      · rw [hk.executeChunk_eq hs] at hm
        subst hT
        rw [show sent k.table [k] = k.rows by simp [sent]]
        cases hr : Store.settled k.table k.rows (before.rows k.table) with
        | error f =>
          rw [hr] at hm
          cases hm
        | ok rows =>
          rw [hr] at hm
          cases hm
          rw [Store.rows_set_self]
      · rw [show sent table [k] = [] by simp [sent, hT], settled_nil,
          Store.rows_executeChunk_ne hm fun e => hT e.symm]
    rw [hsent, settled_append hone]
    exact hrest table

end Batch

end FeedLedger
