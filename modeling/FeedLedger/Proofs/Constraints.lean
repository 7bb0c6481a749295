import FeedLedger.Proofs.Redelivery

namespace FeedLedger

namespace Table

/-- The columns that rows have to fill, since the table does not. -/
def insertable (t : Table) : List String := (t.columns.filter (·.filling = .null)).map (·.name)

/-- What inserting a row makes of the rows of its table: it is the last one or, if a unique key of it is taken, it is
skipped, or stands in for the one row that has the key. -/
inductive Inserted (t : Table) (policy : ConflictPolicy) (row : Row) : List Row → List Row → Prop
  | appended {rows : List Row} (hfree : ∀ r ∈ rows, t.taken row r = false) : Inserted t policy row rows (rows ++ [row])
  | skipped {rows : List Row} {r : Row} (hp : policy = .ignore) (hr : r ∈ rows) (htaken : t.taken row r = true) :
      Inserted t policy row rows rows
  | overwritten {before after : List Row} {r : Row} (hp : policy = .update) (htaken : t.taken row r = true)
      (hothers : ∀ q ∈ before ++ after, t.taken row q = false) :
      Inserted t policy row (before ++ r :: after) (before ++ row.under r :: after)

/-- Overwriting the one row that is taken leaves the rows around it. -/
theorem map_under {t : Table} {new r : Row} {before after : List Row} (hr : t.taken new r = true)
    (hothers : ∀ q ∈ before ++ after, t.taken new q = false) :
    ((before ++ r :: after).map fun q => if t.taken new q then new.under q else q) =
      before ++ new.under r :: after := by
  have hstay : ∀ part : List Row, (∀ q ∈ part, t.taken new q = false) →
      part.map (fun q => if t.taken new q then new.under q else q) = part := by
    intro part hpart
    refine (List.map_congr_left fun q hq => ?_).trans (List.map_id part)
    rw [hpart q hq, if_neg Bool.false_ne_true]
    rfl
  have hbefore := hstay before fun q hq => hothers q (List.mem_append_left _ hq)
  have hafter := hstay after fun q hq => hothers q (List.mem_append_right _ hq)
  rw [List.map_append, List.map_cons, hbefore, hafter, if_pos hr]

end Table

namespace Schema

variable {s : Schema} {t : Table} {conflict : Conflict} {given : List (String × Cell)} {rows : List Row} {p : Params}

/-- Among rows without a common key, no two have a key of one row. -/
theorem Fits.taken_once (h : s.Fits t conflict) {new r : Row} {before after : List Row}
    (hkeys : ((before ++ r :: after).map fun r => s.conflictKeys.map r.cell).Nodup) (hr : t.taken new r = true) :
    ∀ q ∈ before ++ after, t.taken new q = false := by
  have hsame : ∀ q, t.taken new q = true → s.conflictKeys.map q.cell = s.conflictKeys.map new.cell := by
    intro q hq
    rw [h.taken_eq, Row.agrees_iff] at hq
    exact List.map_congr_left fun k hk => (hq k hk).1
  intro q hq
  by_contra hne
  have hkey := (hsame q (eq_true_of_ne_false hne)).trans (hsame r hr).symm
  rw [List.map_append, List.map_cons, List.nodup_middle, List.nodup_cons, ← List.map_append] at hkeys
  exact hkeys.1 (hkey ▸ List.mem_map_of_mem hq)

/-- Inserting a row among rows without a common key. -/
theorem Fits.inserted_settle (h : s.Fits t conflict) (hkeys : (rows.map fun r => s.conflictKeys.map r.cell).Nodup)
    (given : List (String × Cell)) :
    t.Inserted s.policy (t.newRow given rows) rows (t.settle s.policy rows given) := by
  generalize hnew : t.newRow given rows = new
  by_cases htaken : rows.any (t.taken new) = true
  case neg =>
    have hsettle : t.settle s.policy rows given = rows ++ [new] := by
      simp only [Table.settle, hnew]
      rw [if_neg htaken]
    rw [hsettle]
    apply Table.Inserted.appended
    intro r hr
    by_contra hne
    exact htaken (List.any_eq_true.2 ⟨r, hr, eq_true_of_ne_false hne⟩)
  case pos =>
    obtain ⟨r, hr, hrtaken⟩ := List.any_eq_true.1 htaken
    cases hp : s.policy with
    | ignore =>
      have hsettle : t.settle .ignore rows given = rows := by
        simp only [Table.settle, hnew]
        rw [if_pos htaken]
      rw [hsettle]
      exact .skipped rfl hr hrtaken
    | update =>
      have hsettle : t.settle .update rows given = rows.map fun r => if t.taken new r then new.under r else r := by
        simp only [Table.settle, hnew]
        rw [if_pos htaken]
      obtain ⟨before, after, rfl⟩ := List.append_of_mem hr
      have hothers := h.taken_once hkeys hrtaken
      rw [hsettle, Table.map_under hrtaken hothers]
      exact .overwritten rfl hrtaken hothers

/-- The columns that rows have to fill are those that the schema writes. -/
theorem Fits.insertable_eq (h : s.Fits t conflict) :
    t.insertable = t.columnNames.filter (s.writeColumns.contains ·) := by
  have hfilter : t.columns.filter (·.filling = .null) = t.columns.filter fun c => s.writeColumns.contains c.name := by
    apply List.filter_congr
    intro c hc
    rcases h.column_cases (Table.column?_of_mem h.columns hc) with ⟨hw, hfill, -⟩ | ⟨hw, hother⟩
    · simp [hw, hfill]
    · have hne : c.filling ≠ .null := by
        rcases hother with rfl | ⟨hfill, -⟩
        · decide
        · simp [hfill]
      simp [hw, hne]
  rw [Table.insertable, hfilter, Table.columnNames, List.filter_map]
  rfl

theorem Fits.insertable_perm (h : s.Fits t conflict) : s.writeColumns.Perm t.insertable := by
  rw [h.insertable_eq, List.perm_ext_iff_of_nodup h.nodup_writeColumns (h.columns.filter _)]
  intro column
  rw [List.mem_filter]
  constructor
  · intro hw
    obtain ⟨c, hc⟩ := h.column?_of_written hw
    obtain ⟨hm, rfl⟩ := Table.mem_of_column? hc
    exact ⟨List.mem_map_of_mem hm, by simpa using hw⟩
  · rintro ⟨-, hw⟩
    simpa using hw

/-- What parameters hold in a column that needs a value. -/
theorem Takes.filled (hp : s.Takes t p) (h : s.Fits t conflict) {c : Column} (hc : c ∈ t.columns)
    (hneeded : c.nullable = false) (hfill : c.filling = .null) :
    ∃ x, Keyed.get? c.name p = some x ∧ x.isNull = false ∧ c.type.bind x ≠ .cell .null := by
  have hw : c.name ∈ s.writeColumns := by
    apply h.insertable_perm.mem_iff.2
    exact List.mem_map_of_mem (List.mem_filter.2 ⟨hc, decide_eq_true hfill⟩)
  obtain ⟨x, hx⟩ := Option.isSome_iff_exists.1 (hp.get?_isSome.2 hw)
  obtain ⟨c', hc', hcases⟩ := hp.bind_cases hx
  obtain rfl : c = c' := Option.some.inj ((Table.column?_of_mem h.columns hc).symm.trans hc')
  have hbind : c.type.bind x ≠ .cell .null := by
    rcases hcases with ⟨n, -, -, hlarge⟩ | ⟨y, hy, hnull, -⟩
    · simp [hlarge]
    · rintro hcell
      rw [hy] at hcell
      rw [hnull (Binding.cell.inj hcell)] at hneeded
      cases hneeded
  refine ⟨x, hx, ?_, hbind⟩
  by_contra hne
  cases x with
  | null => exact hbind (ColumnType.bind_null _)
  | _ => exact hne rfl

/-- A new row holds what its parameters are bound to. -/
theorem Takes.cell_newRow (hp : s.Takes t p) (h : s.Fits t conflict) (hg : s.Gives t given)
    (hgiven : t.bound p = given.map fun q => (q.1, .cell q.2)) (rows : List Row) {c : Column} (hc : c ∈ t.columns)
    {x : Value} (hx : Keyed.get? c.name p = some x) : c.type.bind x = .cell ((t.newRow given rows).cell c.name) := by
  have hfind := Table.column?_of_mem h.columns hc
  have hw : c.name ∈ s.writeColumns := hp.get?_isSome.1 (by rw [hx]; rfl)
  obtain ⟨hcell, -⟩ := h.cell_written hg rows hfind hw
  have hbound := Table.get?_bound t p c.name
  rw [hgiven, Keyed.get?_mapValues fun _ y => Binding.cell y, hcell, hfind, hx] at hbound
  exact (Option.some.inj hbound).symm

end Schema

namespace Registry

/-- The columns of a schema, and the ingest key where the table has one, are those that are written. -/
theorem writeColumns_eq {s : Schema} (hs : s ∈ schemas) {t : Table} (ht : Catalog.table? s.table = some t) :
    s.writeColumns = s.columns ++ t.columnNames.filter (· = Schema.ingestKeyColumn) := by
  have hall : ∀ s ∈ schemas, ((Catalog.table? s.table).all fun t =>
      s.writeColumns = s.columns ++ t.columnNames.filter (· = Schema.ingestKeyColumn)) = true := by decide +kernel
  have h := hall s hs
  rw [ht, Option.all_some] at h
  exact of_decide_eq_true h

end Registry

namespace Store

/-- How a store takes in the parameters of one row: they name the columns to fill, once each, and have a value in each
column that needs one. The driver does not pass on an integer beyond 64 bits; any other row is inserted. -/
structure Admits (store : Store) (s : Schema) (t : Table) (i : Insert) (p : Params) : Prop where
  named : Keyed.keys p = s.columns ++ t.columnNames.filter (· = Schema.ingestKeyColumn)
  once : (Keyed.keys p).Nodup ∧ (Keyed.keys p).Perm t.insertable
  filled : ∀ c ∈ t.columns, c.nullable = false → c.filling = .null →
    ∃ x, Keyed.get? c.name p = some x ∧ x.isNull = false ∧ c.type.bind x ≠ .cell .null
  oversized : p.Oversized → store.executeChunk ⟨i, [p]⟩ = .error .integerTooLarge
  inserted : ¬p.Oversized → ∃ row rows, store.executeChunk ⟨i, [p]⟩ = .ok (store.set s.table rows) ∧
    (∀ c ∈ t.columns, ∀ x, Keyed.get? c.name p = some x → c.type.bind x = .cell (row.cell c.name)) ∧
    t.Inserted s.policy row (store.rows s.table) rows

theorem Remembers.admits {store : Store} {ps : String → List Params} (hstore : store.Remembers ps) {s : Schema}
    {t : Table} {conflict : Conflict} (hs : s ∈ Registry.schemas) (e : Registry.Entry s.table s t conflict) {p : Params}
    (hp : s.Takes t p) :
    store.Admits s t ⟨t, t.columnNames.filter (s.writeColumns.contains ·), conflict⟩ p := by
  have hchunk := e.executeChunk_eq (List.cons_ne_nil p []) (List.forall_mem_singleton.2 hp) hstore.sound
  constructor
  case named => rw [hp.keys, Registry.writeColumns_eq hs e.listed]
  case once =>
    rw [hp.keys]
    exact ⟨e.fits.nodup_writeColumns, e.fits.insertable_perm⟩
  case filled => exact fun c hc hneeded hfill => hp.filled e.fits hc hneeded hfill
  case oversized =>
    intro hlarge
    rcases hp.cells_bound e.fits with ⟨-, hcells⟩ | ⟨hsmall, -⟩
    · rw [hchunk, Table.settleAll, hcells]
      rfl
    · exact absurd hlarge hsmall
  case inserted =>
    intro hsmall
    rcases hp.cells_bound e.fits with ⟨hlarge, -⟩ | ⟨-, given, hcells, hgiven, hg⟩
    · exact absurd hlarge hsmall
    obtain ⟨history, hh, -⟩ := hstore.told s.table s t conflict e
    have hkeys : ((store.rows s.table).map fun r => s.conflictKeys.map r.cell).Nodup := by
      rw [hh.keys e.fits]
      exact ConflictPolicy.nodup_keys _ _
    refine ⟨_, _, ?_, fun c hc x hx => hp.cell_newRow e.fits hg hgiven _ hc hx, e.fits.inserted_settle hkeys given⟩
    rw [hchunk, Table.settleAll, hcells]
    rfl

end Store

end FeedLedger
