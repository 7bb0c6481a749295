import FeedLedger.Proofs.Chunk
import FeedLedger.Proofs.Keyed
import Mathlib.Data.List.Nodup

namespace FeedLedger

theorem Keyed.get?_mapValues {α β : Type} (f : String → α → β) (key : String) (l : List (String × α)) :
    get? key (l.map fun (k, a) => (k, f k a)) = (get? key l).map (f key) := by
  induction l with
  | nil => rfl
  | cons p r ih =>
    obtain ⟨k, a⟩ := p
    by_cases h : k = key
    · subst h
      simp [get?]
    · simp [get?, h, ih]

namespace Row

theorem keys_overwrite (r new : Row) (set : List String) (touch : Bool) :
    Keyed.keys (r.overwrite new set touch).cells = Keyed.keys r.cells := by
  simp [overwrite, Keyed.keys]

private theorem get?_overwrite (column : String) (r new : Row) (set : List String) (touch : Bool) :
    Keyed.get? column (r.overwrite new set touch).cells =
      (Keyed.get? column r.cells).map fun old =>
        if set.contains column then new.cell column
        else if touch && column = Column.updatedAt.name then .clock
        else old :=
  Keyed.get?_mapValues
    (fun c old =>
      if set.contains c then new.cell c else if touch && c = Column.updatedAt.name then .clock else old)
    column r.cells

theorem cell_overwrite {r : Row} {column : String} (h : column ∈ Keyed.keys r.cells) (new : Row)
    (set : List String) (touch : Bool) :
    (r.overwrite new set touch).cell column =
      if set.contains column then new.cell column
      else if touch && column = Column.updatedAt.name then .clock
      else r.cell column := by
  rw [Keyed.mem_keys_iff, Option.isSome_iff_exists] at h
  obtain ⟨old, ho⟩ := h
  show (Keyed.get? column (r.overwrite new set touch).cells).getD .null = _
  rw [get?_overwrite, ho, Row.cell, Row.cell, ho]
  rfl

end Row

namespace Table

variable {t : Table}

theorem keys_newRow (given : List (String × Cell)) (rows : List Row) :
    Keyed.keys (t.newRow given rows).cells = t.columnNames := by
  simp [newRow, Keyed.keys, columnNames]

theorem cell_newRow {column : String} {c : Column} (h : t.column? column = some c) (given : List (String × Cell))
    (rows : List Row) :
    (t.newRow given rows).cell column = c.fill given (Row.nextNumber t.primaryKey rows) := by
  simp only [column?] at h
  rw [newRow, Row.cell, Keyed.get?_map, h]
  rfl

/-- Rows with one cell for each column. -/
def Lays (t : Table) (rows : List Row) : Prop := ∀ r ∈ rows, Keyed.keys r.cells = t.columnNames

theorem Lays.append {rows : List Row} (h : t.Lays rows) {row : Row} (hr : Keyed.keys row.cells = t.columnNames) :
    t.Lays (rows ++ [row]) := by
  intro r hm
  rcases List.mem_append.1 hm with hm | hm
  · exact h r hm
  · rw [List.mem_singleton.1 hm]
    exact hr

theorem Lays.overwrite {rows rows' : List Row} (h : t.Lays rows) {key set : List String} {touch : Bool} {row : Row}
    (ho : t.overwrite key set touch row rows = .ok rows') : t.Lays rows' := by
  simp only [Table.overwrite] at ho
  split at ho
  · cases ho
  cases ho
  intro r hr
  obtain ⟨q, hq, rfl⟩ := List.mem_map.1 hr
  split
  · rw [Row.keys_overwrite]
    exact h q hq
  · exact h q hq

theorem Lays.insertRow {conflict : Conflict} {rows rows' : List Row} (h : t.Lays rows) {given : List (String × Cell)}
    (hi : t.insertRow conflict rows given = .ok rows') : t.Lays rows' := by
  have hnew := h.append (keys_newRow given rows)
  simp only [Table.insertRow] at hi
  split at hi
  · cases hi
  split at hi
  · cases hi
    split
    · exact h
    · exact hnew
  · split at hi
    · exact h.overwrite hi
    split at hi
    · cases hi
    · cases hi
      exact hnew

theorem Lays.insertRows {conflict : Conflict} {rows rows' : List Row} (h : t.Lays rows)
    {bound : List (List (String × Binding))} (hi : t.insertRows conflict rows bound = .ok rows') : t.Lays rows' := by
  induction bound generalizing rows with
  | nil =>
    cases hi
    exact h
  | cons b rest ih =>
    simp only [Table.insertRows] at hi
    split at hi
    · cases hi
    split at hi
    · cases hi
    rename_i next hn
    exact ih (h.insertRow hn) hi

end Table

namespace Catalog

theorem eq_of_name {t u : Table} (ht : t ∈ tables) (hu : u ∈ tables) (h : t.name = u.name) : t = u :=
  List.inj_on_of_nodup_map nodup_names ht hu h

theorem mem_of_table? {name : String} {t : Table} (h : table? name = some t) : t ∈ tables :=
  List.mem_of_find?_eq_some h

theorem name_ne_of_recordTable {t : Table} (h : t ∈ recordTables) : t.name ≠ offsetsTable := by
  have hnodup := nodup_names
  rw [tables, List.map_cons, List.nodup_cons] at hnodup
  intro e
  have hmem : t.name ∈ recordTables.map (·.name) := List.mem_map_of_mem h
  rw [e] at hmem
  exact hnodup.1 hmem

theorem streamOffsets_mem : streamOffsets ∈ tables := List.mem_cons_self

end Catalog

theorem Schema.table_mem_of_insert {s : Schema} {dialect : String} {i : Insert} (h : s.insert dialect = .ok i) :
    i.table ∈ Catalog.tables := by
  obtain ⟨t, conflict, ht, -, rfl⟩ := insert_eq_ok h
  exact Catalog.mem_of_table? ht

namespace Store

/-- What executing a chunk comes to: its rows are inserted into its table. -/
theorem insertRows_of_executeChunk {s s' : Store} {k : Chunk} (h : s.executeChunk k = .ok s') :
    ∃ bound conflict rows, k.statement.bind k.rows = .ok bound ∧ bound.conflict? = some conflict ∧
      k.statement.table.insertRows conflict (s.rows k.table) bound.rows = .ok rows ∧ s' = s.set k.table rows := by
  simp only [executeChunk] at h
  split at h
  · cases h
  rename_i bound hb
  obtain ⟨rows, ha, rfl⟩ := rows_of_execute h
  have hstated := Insert.statement_of_bind hb
  rw [hstated] at ha ⊢
  simp only [BoundInsert.apply] at ha
  rw [hstated] at ha
  split at ha
  · cases ha
  split at ha
  · cases ha
  · rename_i conflict hc
    exact ⟨bound, conflict, rows, hb, hc, ha, rfl⟩

/-- Every table holds rows of its own columns. -/
def Laid (s : Store) : Prop := ∀ t ∈ Catalog.tables, t.Lays (s.rows t.name)

theorem laid_empty : empty.Laid := by
  intro t _ r hr
  cases hr

theorem Laid.executeChunk {s s' : Store} (h : s.Laid) {k : Chunk} (hk : k.statement.table ∈ Catalog.tables)
    (he : s.executeChunk k = .ok s') : s'.Laid := by
  obtain ⟨bound, conflict, rows, -, -, hi, rfl⟩ := insertRows_of_executeChunk he
  intro t ht
  by_cases hn : t.name = k.table
  · obtain rfl : t = k.statement.table := Catalog.eq_of_name ht hk hn
    rw [hn, rows_set_self]
    exact (h _ hk).insertRows hi
  · rw [rows_set_ne hn]
    exact h t ht

theorem Laid.executeChunks {s s' : Store} (h : s.Laid) {chunks : List Chunk}
    (hk : ∀ k ∈ chunks, k.statement.table ∈ Catalog.tables) (he : s.executeChunks chunks = .ok s') : s'.Laid := by
  induction chunks generalizing s with
  | nil =>
    cases he
    exact h
  | cons k rest ih =>
    simp only [Store.executeChunks] at he
    split at he
    · cases he
    rename_i mid hm
    exact ih (h.executeChunk (hk k (by simp)) hm) (fun l hl => hk l (List.mem_cons_of_mem _ hl)) he

end Store

end FeedLedger
