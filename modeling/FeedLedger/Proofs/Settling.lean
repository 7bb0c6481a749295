import FeedLedger.Proofs.Given
import FeedLedger.Proofs.Numbered

namespace FeedLedger

/-- A row under the number of another one. -/
def Row.under (new r : Row) : Row :=
  ⟨new.cells.map fun (c, x) => (c, if c = Column.id.name then r.cell c else x)⟩

/-- Whether a row has a unique key of another one. -/
def Table.taken (t : Table) (row r : Row) : Bool := t.unique.any fun key => r.agrees key.columns row

/-- The rows of a table after one more is inserted under a policy. -/
def Table.settle (t : Table) (policy : ConflictPolicy) (rows : List Row) (given : List (String × Cell)) : List Row :=
  let row := t.newRow given rows
  if rows.any (t.taken row) then
    match policy with
    | .ignore => rows
    | .update => rows.map fun r => if t.taken row r then row.under r else r
  else rows ++ [row]

theorem Row.eq_of_cells {r q : Row} (hk : Keyed.keys r.cells = Keyed.keys q.cells) (hd : (Keyed.keys r.cells).Nodup)
    (h : ∀ c ∈ Keyed.keys r.cells, r.cell c = q.cell c) : r = q := by
  have hlists : ∀ l m : List (String × Cell), Keyed.keys l = Keyed.keys m → (Keyed.keys l).Nodup →
      (∀ c ∈ Keyed.keys l, (Keyed.get? c l).getD .null = (Keyed.get? c m).getD .null) → l = m := by
    intro l m
    induction l generalizing m with
    | nil =>
      intro hk _ _
      exact (List.map_eq_nil_iff.1 hk.symm).symm
    | cons p rest ih =>
      intro hk hd h
      obtain ⟨c, x⟩ := p
      cases m with
      | nil => cases hk
      | cons q more =>
        obtain ⟨d, y⟩ := q
        simp only [Keyed.keys, List.map_cons, List.cons.injEq] at hk
        obtain ⟨rfl, hkeys⟩ := hk
        simp only [Keyed.keys, List.map_cons, List.nodup_cons] at hd
        have hx : x = y := by simpa [Keyed.get?, Keyed.keys] using h c
        have hrest : rest = more := by
          refine ih more hkeys hd.2 fun e he => ?_
          have hne : c ≠ e := fun hce => hd.1 (hce ▸ he)
          have hcell := h e (List.mem_cons_of_mem _ he)
          rw [Keyed.get?, if_neg hne, Keyed.get?, if_neg hne] at hcell
          exact hcell
        rw [hx, hrest]
  obtain ⟨l⟩ := r
  obtain ⟨m⟩ := q
  rw [hlists l m hk hd h]

theorem Row.agrees_iff {columns : List String} {r q : Row} :
    r.agrees columns q = true ↔ ∀ c ∈ columns, r.cell c = q.cell c ∧ r.cell c ≠ .null := by
  simp [agrees]

theorem Row.keys_under (new r : Row) : Keyed.keys (new.under r).cells = Keyed.keys new.cells := by
  simp [under, Keyed.keys]

theorem Row.cell_under {new r : Row} {column : String} (h : column ∈ Keyed.keys new.cells) :
    (new.under r).cell column = if column = Column.id.name then r.cell column else new.cell column := by
  rw [Keyed.mem_keys_iff, Option.isSome_iff_exists] at h
  obtain ⟨x, hx⟩ := h
  have hget := Keyed.get?_mapValues (fun c x => if c = Column.id.name then r.cell c else x) column new.cells
  show (Keyed.get? column (new.under r).cells).getD .null = _
  simp only [under]
  rw [hget, hx, Row.cell, Row.cell, hx]
  rfl

namespace Schema

variable {s : Schema} {t : Table} {conflict : Conflict} {given : List (String × Cell)} {rows : List Row}

/-- The conflict clause as the database reads it, with the key that its target names. -/
def resolved (s : Schema) : Conflict → Conflict
  | .ignore => .ignore
  | .update _ set touch => .update s.conflictKeys set touch

theorem Fits.primaryKey (h : s.Fits t conflict) : t.primaryKey = Column.id.name := by
  have hk := h.keys
  simp only [Table.keys] at hk
  simpa using (List.cons.inj hk).1

theorem Fits.taken_eq (h : s.Fits t conflict) (row r : Row) : t.taken row r = r.agrees s.conflictKeys row := by
  have hk := h.keys
  simp only [Table.keys] at hk
  have hunique := (List.cons.inj hk).2
  have hmap : t.taken row r = (t.unique.map (·.columns)).any fun key => r.agrees key row := by
    simp [Table.taken, List.any_map, Function.comp_def]
  rw [hmap, hunique]
  simp

theorem Fits.column_cases (h : s.Fits t conflict) {column : String} {c : Column} (hc : t.column? column = some c) :
    column ∈ s.writeColumns ∧ c.filling = .null ∧ c.type ≠ .rowNumber ∨
      column ∉ s.writeColumns ∧ (c = Column.id ∨ c.filling = .clock ∧ c.type ≠ .rowNumber) := by
  obtain ⟨hm, rfl⟩ := Table.mem_of_column? hc
  have hf := h.filled c hm
  split at hf
  · rename_i hw
    exact .inl ⟨hw, hf⟩
  · rename_i hw
    exact .inr ⟨hw, hf⟩

theorem Fits.id_not_written (h : s.Fits t conflict) : Column.id.name ∉ s.writeColumns := by
  intro hw
  rcases h.column_cases h.number with ⟨-, hfill, -⟩ | ⟨hn, -⟩
  · cases hfill
  · exact hn hw

theorem Fits.id_not_key (h : s.Fits t conflict) : Column.id.name ∉ s.conflictKeys :=
  fun hk => h.id_not_written (h.keyed _ hk).1

theorem Fits.mem_keys_newRow (h : s.Fits t conflict) {column : String} (hk : column ∈ s.conflictKeys) :
    column ∈ Keyed.keys (t.newRow given rows).cells := by
  obtain ⟨c, hc, -⟩ := (Option.any_eq_true _ _).1 (h.keyed column hk).2
  obtain ⟨hm, rfl⟩ := Table.mem_of_column? hc
  rw [Table.keys_newRow]
  exact List.mem_map_of_mem hm

theorem Fits.cell_written (h : s.Fits t conflict) (hg : s.Gives t given) (rows : List Row) {column : String}
    {c : Column} (hc : t.column? column = some c) (hw : column ∈ s.writeColumns) :
    Keyed.get? column given = some ((t.newRow given rows).cell column) ∧
      ((t.newRow given rows).cell column = .null → c.nullable = true) := by
  have hgiven := hg column c hc
  rw [if_pos hw] at hgiven
  obtain ⟨x, hx, hnull⟩ := hgiven
  obtain ⟨-, rfl⟩ := Table.mem_of_column? hc
  have hfill : c.filling = .null := by
    rcases h.column_cases hc with ⟨-, hf, -⟩ | ⟨hn, -⟩
    · exact hf
    · exact absurd hw hn
  have hcell : (t.newRow given rows).cell c.name = x := by
    rw [Table.cell_newRow hc, Column.fill, hx, hfill]
    cases x <;> rfl
  rw [hcell]
  exact ⟨hx, hnull⟩

theorem Fits.cell_number (h : s.Fits t conflict) (hg : s.Gives t given) (hn : Row.Numbered rows) :
    (t.newRow given rows).cell Column.id.name = .integer (rows.length + 1) := by
  have hgiven := hg _ _ h.number
  rw [if_neg h.id_not_written] at hgiven
  rw [Table.cell_newRow h.number, Column.fill, hgiven, h.primaryKey, hn.nextNumber]
  rfl

theorem Fits.cell_clock (h : s.Fits t conflict) (hg : s.Gives t given) {column : String} {c : Column}
    (hc : t.column? column = some c) (hw : column ∉ s.writeColumns) (hid : column ≠ Column.id.name) :
    (t.newRow given rows).cell column = .clock := by
  have hgiven := hg column c hc
  rw [if_neg hw] at hgiven
  obtain ⟨-, rfl⟩ := Table.mem_of_column? hc
  rcases h.column_cases hc with ⟨hw', -⟩ | ⟨-, hcid | ⟨hclock, -⟩⟩
  · exact absurd hw' hw
  · exact absurd (congrArg Column.name hcid) hid
  · rw [Table.cell_newRow hc, Column.fill, hgiven, hclock]

theorem Fits.not_refused (h : s.Fits t conflict) (hg : s.Gives t given) (hn : Row.Numbered rows) :
    t.refuses (t.newRow given rows) = false := by
  simp only [Table.refuses]
  rw [List.any_eq_false]
  intro c hm
  have hc := Table.column?_of_mem h.columns hm
  rcases h.column_cases hc with ⟨hw, -, htype⟩ | ⟨hw, hid | ⟨-, htype⟩⟩
  · obtain ⟨-, hnull⟩ := h.cell_written hg rows hc hw
    simp only [Column.refuses]
    split
    · rename_i hcell
      simp [hnull hcell]
    · simp
    · simpa using htype
  · have hcell := h.cell_number hg hn
    rw [hid, hcell]
    simp [Column.refuses]
  · by_cases hname : c.name = Column.id.name
    · rw [hname, h.cell_number hg hn]
      simp [Column.refuses]
    · rw [h.cell_clock hg hc hw hname]
      simpa [Column.refuses] using htype

/-- A new row can clash on its own key alone, its number being new. -/
theorem Fits.openKeys_eq (h : s.Fits t conflict) (hg : s.Gives t given) : t.openKeys given = [s.conflictKeys] := by
  have hnumber : t.numbers given Column.id.name = true := by
    have hgiven := hg _ _ h.number
    rw [if_neg h.id_not_written] at hgiven
    simp only [Table.numbers]
    rw [h.number, hgiven]
    rfl
  have hkey : s.conflictKeys.any (t.numbers given) = false := by
    rw [List.any_eq_false]
    intro k hk
    obtain ⟨hw, hcol⟩ := h.keyed k hk
    obtain ⟨c, hc, -⟩ := (Option.any_eq_true _ _).1 hcol
    simp only [Table.numbers]
    rw [hc]
    rcases h.column_cases hc with ⟨-, hfill, -⟩ | ⟨hnot, -⟩
    · simp [hfill]
    · exact absurd hw hnot
  simp only [Table.openKeys]
  rw [h.keys]
  simp [hnumber, hkey]

/-- Overwriting the row that has the key is putting the new row in its place, under its number. -/
theorem Fits.overwrite_eq (h : s.Fits t conflict) {target set : List String} {touch : Bool}
    (hs : s.SettlesBy t (.update target set touch)) (hg : s.Gives t given) {r : Row}
    (hr : Keyed.keys r.cells = t.columnNames) (ha : r.agrees s.conflictKeys (t.newRow given rows) = true) :
    r.overwrite (t.newRow given rows) set touch = (t.newRow given rows).under r := by
  obtain ⟨-, htouch, -, -, hupdated, hset⟩ := hs
  have hnew : Keyed.keys (t.newRow given rows).cells = t.columnNames := Table.keys_newRow given rows
  have hclock := Table.column?_of_mem h.columns hupdated
  have hunwritten : Column.updatedAt.name ∉ s.writeColumns := by
    rcases h.column_cases hclock with ⟨-, hfill, -⟩ | ⟨hn, -⟩
    · cases hfill
    · exact hn
  refine Row.eq_of_cells ?_ ?_ ?_
  · rw [Row.keys_overwrite, Row.keys_under, hr, hnew]
  · rw [Row.keys_overwrite, hr]
    exact h.columns
  · intro c hc
    rw [Row.keys_overwrite] at hc
    have hcn : c ∈ t.columnNames := by rw [← hr]; exact hc
    rw [Row.cell_overwrite hc, Row.cell_under (by rw [hnew]; exact hcn)]
    by_cases hin : c ∈ set
    · rw [if_pos (by simpa using hin), if_neg ((hset c hcn).1 hin).1]
    rw [if_neg (by simpa using hin)]
    by_cases hid : c = Column.id.name
    · rw [if_pos hid, hid, if_neg (by simp [Column.id, Column.updatedAt])]
    rw [if_neg hid]
    by_cases hup : c = Column.updatedAt.name
    · subst hup
      rw [if_pos (by simp [htouch]), h.cell_clock hg hclock hunwritten hid]
    · rw [if_neg (by simp [hup])]
      have hkey : c ∈ s.conflictKeys := by
        by_contra hnk
        exact hin ((hset c hcn).2 ⟨hid, hnk, hup⟩)
      exact (Row.agrees_iff.1 ha c hkey).1

private theorem Fits.overwrite_rows (h : s.Fits t conflict) {target set : List String} {touch : Bool}
    (hs : s.SettlesBy t (.update target set touch)) (hg : s.Gives t given) (hn : Row.Numbered rows) (hl : t.Lays rows) :
    t.overwrite s.conflictKeys set touch (t.newRow given rows) rows =
      .ok (rows.map fun r => if t.taken (t.newRow given rows) r then (t.newRow given rows).under r else r) := by
  have hid : Column.id.name ∈ Keyed.keys (t.newRow given rows).cells := by
    rw [Table.keys_newRow]
    exact List.mem_map_of_mem (Table.mem_of_column? h.number).1
  have hclash : (rows.any fun r => r.agrees s.conflictKeys (t.newRow given rows) &&
      (rows.filter fun r => !r.agrees s.conflictKeys (t.newRow given rows)).any fun q =>
        t.keys.any fun key => q.agrees key (r.overwrite (t.newRow given rows) set touch)) = false := by
    rw [List.any_eq_false]
    intro r hr hboth
    obtain ⟨ha, hq⟩ := Bool.and_eq_true_iff.1 hboth
    obtain ⟨q, hmem, hkey⟩ := List.any_eq_true.1 hq
    obtain ⟨hqr, hother⟩ := List.mem_filter.1 hmem
    rw [h.overwrite_eq hs hg (hl r hr) ha, h.keys] at hkey
    simp only [List.any_cons, List.any_nil, Bool.or_false, Bool.or_eq_true] at hkey
    have hnot : ¬q.agrees s.conflictKeys (t.newRow given rows) = true := by simpa using hother
    rcases hkey with hnumber | hshared
    · have hcell := (Row.agrees_iff.1 hnumber _ List.mem_cons_self).1
      rw [Row.cell_under hid, if_pos rfl] at hcell
      rw [hn.eq_of_cell hqr hr hcell] at hnot
      exact hnot ha
    · refine hnot (Row.agrees_iff.2 fun c hc => ?_)
      obtain ⟨hcell, hne⟩ := Row.agrees_iff.1 hshared c hc
      have hcid : c ≠ Column.id.name := fun e => h.id_not_key (e ▸ hc)
      rw [Row.cell_under (h.mem_keys_newRow hc), if_neg hcid] at hcell
      exact ⟨hcell, hne⟩
  have hmap : (rows.map fun r =>
      if r.agrees s.conflictKeys (t.newRow given rows) then r.overwrite (t.newRow given rows) set touch else r) =
      rows.map fun r => if t.taken (t.newRow given rows) r then (t.newRow given rows).under r else r := by
    apply List.map_congr_left
    intro r hr
    rw [h.taken_eq]
    split
    · rename_i ha
      exact h.overwrite_eq hs hg (hl r hr) ha
    · rfl
  simp only [Table.overwrite]
  rw [hclash, hmap]
  rfl

/-- Inserting a row of a schema is settling it under the policy; nothing is refused. -/
theorem Fits.insertRow_eq (h : s.Fits t conflict) (hg : s.Gives t given) (hn : Row.Numbered rows) (hl : t.Lays rows) :
    t.insertRow (s.resolved conflict) rows given = .ok (t.settle s.policy rows given) := by
  have hany : (rows.any fun r => r.agrees s.conflictKeys (t.newRow given rows)) =
      rows.any (t.taken (t.newRow given rows)) := by
    simp only [← h.taken_eq]
  simp only [Table.insertRow, Table.settle]
  simp only [h.not_refused hg hn, h.openKeys_eq hg, List.any_cons, List.any_nil, Bool.or_false]
  cases conflict with
  | ignore =>
    have hp : s.policy = .ignore := h.settles
    simp only [resolved, hp, hany]
    rw [if_neg Bool.false_ne_true]
  | update target set touch =>
    have hp : s.policy = .update := h.settles.1
    simp only [resolved, hp, hany]
    rw [if_neg Bool.false_ne_true]
    by_cases hc : rows.any (t.taken (t.newRow given rows)) = true
    · rw [if_pos hc, if_pos hc]
      exact h.overwrite_rows h.settles hg hn hl
    · rw [if_neg hc, if_neg hc, if_neg hc]

/-- Settling a row keeps the numbering and the columns of the table's rows. -/
theorem Fits.settle_keeps (h : s.Fits t conflict) (policy : ConflictPolicy) (hg : s.Gives t given)
    (hn : Row.Numbered rows) (hl : t.Lays rows) :
    Row.Numbered (t.settle policy rows given) ∧ t.Lays (t.settle policy rows given) := by
  have hnew : Keyed.keys (t.newRow given rows).cells = t.columnNames := Table.keys_newRow given rows
  simp only [Table.settle]
  split
  · split
    · exact ⟨hn, hl⟩
    · constructor
      · refine hn.map fun r => ?_
        split
        · rw [Row.cell_under, if_pos rfl]
          rw [hnew]
          exact List.mem_map_of_mem (Table.mem_of_column? h.number).1
        · rfl
      · intro q hq
        obtain ⟨r, hr, rfl⟩ := List.mem_map.1 hq
        split
        · rw [Row.keys_under, hnew]
        · exact hl r hr
  · exact ⟨hn.append (h.cell_number hg hn), hl.append hnew⟩

end Schema

end FeedLedger
