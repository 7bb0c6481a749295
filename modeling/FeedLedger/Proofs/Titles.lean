import FeedLedger.Proofs.Instants
import FeedLedger.Proofs.OffsetRange

namespace FeedLedger

/-- What a column of texts makes of a value. -/
def Cell.IsTitle (c : Cell) : Prop := (∃ s, c = .text s) ∨ c = .null

/-- A column of texts that every row has to name. -/
structure Column.Titles (c : Column) : Prop where
  binds : c.type.bind = Binding.forText
  needed : c.nullable = false
  unfilled : c.filling = .null
  kept : c.name ≠ Column.updatedAt.name

theorem Column.Titles.fill {c : Column} (h : c.Titles) (given : List (String × Cell)) (number : Int) :
    c.fill given number = (Keyed.get? c.name given).getD .null := by
  rw [Column.fill, h.unfilled]
  cases Keyed.get? c.name given with
  | none => rfl
  | some x => cases x <;> rfl

/-- Whether every row has a text in a column. -/
def Row.Titled (column : String) (rows : List Row) : Prop := ∀ r ∈ rows, ∃ s, r.cell column = .text s

namespace Table

variable {t : Table} {column : String} {c : Column}

/-- Given cells make no row, with a text missing, that its table accepts. -/
theorem titled_newRow (hc : t.column? column = some c) (ht : c.Titles) {given : List (String × Cell)}
    (hg : ∀ x, Keyed.get? column given = some x → x.IsTitle) {rows : List Row}
    (hr : t.refuses (t.newRow given rows) = false) : ∃ s, (t.newRow given rows).cell column = .text s := by
  obtain ⟨hm, rfl⟩ := mem_of_column? hc
  have htitle : ((t.newRow given rows).cell c.name).IsTitle := by
    rw [cell_newRow hc, ht.fill]
    cases hx : Keyed.get? c.name given with
    | none => exact .inr rfl
    | some x => exact hg x hx
  rcases htitle with htext | hnull
  · exact htext
  · have hrefused : c.refuses ((t.newRow given rows).cell c.name) = true := by
      rw [hnull, Column.refuses, ht.needed]
      rfl
    have hnot := List.any_eq_false.1 hr c hm
    exact absurd hrefused hnot

theorem Lays.titled_overwrite {rows rows' : List Row} (hl : t.Lays rows) (h : Row.Titled column rows)
    (hc : t.column? column = some c) (ht : c.Titles) {key set : List String} {touch : Bool} {row : Row}
    (hrow : ∃ s, row.cell column = .text s) (ho : t.overwrite key set touch row rows = .ok rows') :
    Row.Titled column rows' := by
  obtain ⟨hm, rfl⟩ := mem_of_column? hc
  simp only [Table.overwrite] at ho
  split at ho
  · cases ho
  cases ho
  intro r hr
  obtain ⟨q, hq, rfl⟩ := List.mem_map.1 hr
  split
  · have hkey : c.name ∈ Keyed.keys q.cells := by
      rw [hl q hq]
      exact List.mem_map_of_mem hm
    rw [Row.cell_overwrite hkey]
    split
    · exact hrow
    · rw [if_neg (by simp [ht.kept])]
      exact h q hq
  · exact h q hq

/-- Texts stay texts, whether a row is put behind the others or over one of them. -/
theorem Lays.titled_insertRow {rows rows' : List Row} (hl : t.Lays rows) (h : Row.Titled column rows)
    (hc : t.column? column = some c) (ht : c.Titles) {conflict : Conflict} {given : List (String × Cell)}
    (hg : ∀ x, Keyed.get? column given = some x → x.IsTitle) (hi : t.insertRow conflict rows given = .ok rows') :
    Row.Titled column rows' := by
  simp only [Table.insertRow] at hi
  split at hi
  · cases hi
  rename_i hrefuses
  have hrow := titled_newRow hc ht hg (Bool.eq_false_iff.2 hrefuses)
  have happend : Row.Titled column (rows ++ [t.newRow given rows]) :=
    List.forall_mem_append.2 ⟨h, List.forall_mem_singleton.2 hrow⟩
  split at hi
  · cases hi
    split
    · exact h
    · exact happend
  · split at hi
    · exact hl.titled_overwrite h hc ht hrow hi
    split at hi
    · cases hi
    · cases hi
      exact happend

theorem Lays.titled_insertRows {rows rows' : List Row} (hl : t.Lays rows) (h : Row.Titled column rows)
    (hc : t.column? column = some c) (ht : c.Titles) {conflict : Conflict} {bound : List (List (String × Binding))}
    (hb : ∀ b ∈ bound, ∀ q ∈ b, q.1 = column → ∀ x, q.2 = .cell x → x.IsTitle)
    (hi : t.insertRows conflict rows bound = .ok rows') : Row.Titled column rows' := by
  induction bound generalizing rows with
  | nil =>
    cases hi
    exact h
  | cons b rest ih =>
    obtain ⟨hfirst, hrest⟩ := List.forall_mem_cons.1 hb
    simp only [Table.insertRows] at hi
    split at hi
    · cases hi
    rename_i given hgiven
    split at hi
    · cases hi
    rename_i next hn
    have hg : ∀ x, Keyed.get? column given = some x → x.IsTitle := by
      intro x hx
      have hmem : (column, Binding.cell x) ∈ b := by
        rw [BoundInsert.bound_of_cells hgiven]
        exact List.mem_map_of_mem (f := fun q => (q.1, Binding.cell q.2)) (Keyed.mem_of_get? hx)
      exact hfirst _ hmem rfl x rfl
    exact ih (hl.insertRow hn) (hl.titled_insertRow h hc ht hg hn) hrest hi

end Table

/-- Parameters for a column of texts are bound to texts, and to nulls. -/
theorem Insert.isTitle_of_bind {i : Insert} {chunk : List Params} {b : BoundInsert} (h : i.bind chunk = .ok b)
    {column : String} {c : Column} (hc : i.table.column? column = some c) (ht : c.Titles) :
    ∀ row ∈ b.rows, ∀ q ∈ row, q.1 = column → ∀ x, q.2 = .cell x → x.IsTitle := by
  intro row hrow q hq hcolumn x hx
  simp only [Insert.bind] at h
  split at h
  · cases h
  split at h
  · cases h
    simp only [Insert.bindEmpty] at hrow
    split at hrow
    · rw [List.mem_singleton.1 hrow] at hq
      cases hq
    · obtain ⟨p, -, rfl⟩ := List.mem_map.1 hrow
      obtain ⟨name, -, rfl⟩ := List.mem_map.1 hq
      exact .inr (Binding.cell.inj hx).symm
  · cases h
    obtain ⟨p, -, rfl⟩ := List.mem_map.1 hrow
    obtain ⟨name, -, rfl⟩ := List.mem_map.1 hq
    simp only at hcolumn hx
    subst hcolumn
    simp only [Insert.bindColumn, hc] at hx
    split at hx
    · rename_i v d _ hd
      cases hd
      rw [ht.binds] at hx
      exact Binding.text_or_null_of_forText hx
    · cases hx

namespace Store

/-- Whether every row of the offsets names its stream. -/
def Titled (s : Store) : Prop := Row.Titled "stream_name" (s.rows Catalog.offsetsTable)

theorem Titled.executeChunk {s s' : Store} (h : s.Titled) (hl : s.Laid) {k : Chunk}
    (hk : k.statement.table ∈ Catalog.tables) (he : s.executeChunk k = .ok s') : s'.Titled := by
  obtain ⟨bound, conflict, rows, hbind, -, hi, rfl⟩ := insertRows_of_executeChunk he
  by_cases hn : Catalog.offsetsTable = k.table
  · have ht : k.statement.table = Catalog.streamOffsets :=
      Catalog.eq_of_name hk Catalog.streamOffsets_mem hn.symm
    have hc : k.statement.table.column? "stream_name" = some (.needed "stream_name" .text) := by
      rw [ht]
      rfl
    have htitles : (Column.needed "stream_name" .text).Titles := ⟨rfl, rfl, rfl, by decide⟩
    have hrows : Row.Titled "stream_name" (s.rows k.table) := hn ▸ h
    rw [Titled, hn, rows_set_self]
    exact (hl _ hk).titled_insertRows hrows hc htitles (Insert.isTitle_of_bind hbind hc htitles) hi
  · rw [Titled, rows_set_ne hn]
    exact h

theorem Titled.executeChunks {s s' : Store} (h : s.Titled) (hl : s.Laid) {chunks : List Chunk}
    (hk : ∀ k ∈ chunks, k.statement.table ∈ Catalog.tables) (he : s.executeChunks chunks = .ok s') : s'.Titled := by
  induction chunks generalizing s with
  | nil =>
    cases he
    exact h
  | cons k rest ih =>
    obtain ⟨hfirst, hrest⟩ := List.forall_mem_cons.1 hk
    simp only [Store.executeChunks] at he
    split at he
    · cases he
    rename_i mid hm
    exact ih (h.executeChunk hl hfirst hm) (hl.executeChunk hfirst hm) hrest he

end Store

theorem Commits.titled_after {schemas : String → Option Schema} {o : BatchOrigin} {rs : List Record}
    {chunks : List Chunk} {before after : Store} (h : Commits schemas o rs chunks before after) (hl : before.Laid)
    (ht : before.Titled) : after.Titled := by
  obtain ⟨mid, he, hmid, ho⟩ := h.laid hl
  have htables : ∀ k ∈ chunks, k.statement.table ∈ Catalog.tables := by
    intro k hk
    obtain ⟨v, -, hi⟩ := h.covers.stated k hk
    exact Schema.table_mem_of_insert hi
  exact (ht.executeChunks hl htables he).executeChunk hmid Catalog.streamOffsets_mem ho

theorem Opened.titled {l : Ledger} (h : Opened l) : l.store.Titled := by
  -- A chunk is put into a table by the columns that it is laid out by.
  have hboth : l.store.Laid ∧ l.store.Titled := by
    induction h with
    | fresh => exact ⟨Store.laid_empty, fun r hr => by cases hr⟩
    | call h schemas chunkSize autocommitting outages c ih =>
      have hdefault := Link.default_store_ne_autocommit autocommitting
      have hempty : Store.empty.Laid ∧ Store.empty.Titled := ⟨Store.laid_empty, fun r hr => by cases hr⟩
      exact Ledger.run_keeps (P := fun s => s.Laid ∧ s.Titled) hdefault c (fun _ => hempty)
        (fun _ _ _ _ _ hc hs => ⟨hc.laid_after hs.1, hc.titled_after hs.1 hs.2⟩) ih
  exact hboth.2

end FeedLedger
