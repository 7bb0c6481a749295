import FeedLedger.Proofs.Execution
import FeedLedger.Proofs.Kept

namespace FeedLedger

namespace Table

variable {t : Table}

/-- The row of some cells under a number. -/
def row (t : Table) (given : List (String × Cell)) (n : Int) : Row := ⟨t.columns.map fun c => (c.name, c.fill given n)⟩

theorem newRow_eq (given : List (String × Cell)) (rows : List Row) :
    t.newRow given rows = t.row given (Row.nextNumber t.primaryKey rows) := rfl

theorem cell_row {column : String} {c : Column} (h : t.column? column = some c) (given : List (String × Cell)) (n : Int) :
    (t.row given n).cell column = c.fill given n := by
  simp only [column?] at h
  rw [row, Row.cell, Keyed.get?_map, h]
  rfl

/-- The cells of those parameters that have some. -/
def cellsOf (t : Table) (ps : List Params) : List (List (String × Cell)) :=
  ps.filterMap fun p => (BoundInsert.cells (t.bound p)).toOption

theorem cellsOf_append (t : Table) (first rest : List Params) :
    t.cellsOf (first ++ rest) = t.cellsOf first ++ t.cellsOf rest := by
  simp [cellsOf]

end Table

namespace Schema

/-- The cells that tell a row from others. -/
def keyOf (s : Schema) (given : List (String × Cell)) : List Cell :=
  s.conflictKeys.map fun c => (Keyed.get? c given).getD .null

/-- The rows of a table after a history of cells, numbered from one on. -/
def content (s : Schema) (t : Table) (history : List (List (String × Cell))) : List Row :=
  (s.policy.kept s.keyOf history).mapIdx fun i given => t.row given (i + 1)

variable {s : Schema} {t : Table} {conflict : Conflict} {given other : List (String × Cell)}
  {history again : List (List (String × Cell))} {ps : List Params}

/-- Items that come again where their keys are taken do not count, unless they overwrite. -/
theorem content_again (hp : s.policy = .ignore) (h : ∀ given ∈ again, s.keyOf given ∈ history.map s.keyOf) (t : Table)
    (rest : List (List (String × Cell))) : s.content t (history ++ again ++ rest) = s.content t (history ++ rest) := by
  have hkept : s.policy.kept s.keyOf (history ++ again) = s.policy.kept s.keyOf history := by
    rw [hp, ConflictPolicy.kept_ignore_append h]
  rw [content, ConflictPolicy.kept_append_congr hkept, content]

theorem Fits.column?_of_written (h : s.Fits t conflict) {column : String} (hw : column ∈ s.writeColumns) :
    ∃ c, t.column? column = some c := by
  have hprojected (hc : column ∈ s.columns) : ∃ c, t.column? column = some c := by
    rcases mem_columns hc with ⟨f, hf, rfl⟩ | ⟨hlevels, hlevel⟩
    · obtain ⟨c, hc, -⟩ := (Option.any_eq_true _ _).1 (h.fields f hf)
      exact ⟨c, hc⟩
    · have hnames : levelColumns = levelFields.map (·.1) := rfl
      rw [hnames] at hlevel
      obtain ⟨p, hp, rfl⟩ := List.mem_map.1 hlevel
      obtain ⟨c, hc, -⟩ := (Option.any_eq_true _ _).1 ((h.levels hlevels).1 p hp)
      exact ⟨c, hc⟩
  simp only [writeColumns] at hw
  split at hw
  · rename_i hs
    rcases List.mem_append.1 hw with hc | hc
    · exact hprojected hc
    · obtain ⟨c, hc', -⟩ := (Option.any_eq_true _ _).1 (h.ingestKey hs).1
      exact ⟨c, List.mem_singleton.1 hc ▸ hc'⟩
  · exact hprojected hw

/-- A column that is written holds the cell that is given for it. -/
theorem Fits.get?_row (h : s.Fits t conflict) (hg : s.Gives t given) {column : String} (hw : column ∈ s.writeColumns)
    (n : Int) : Keyed.get? column given = some ((t.row given n).cell column) := by
  obtain ⟨c, hc⟩ := h.column?_of_written hw
  have hgiven := hg column c hc
  rw [if_pos hw] at hgiven
  obtain ⟨x, hx, -⟩ := hgiven
  obtain ⟨-, rfl⟩ := Table.mem_of_column? hc
  have hfill : c.filling = .null := by
    rcases h.column_cases hc with ⟨-, hf, -⟩ | ⟨hn, -⟩
    · exact hf
    · exact absurd hw hn
  rw [Table.cell_row hc, Column.fill, hx, hfill]
  cases x <;> rfl

theorem Fits.fill_id (h : s.Fits t conflict) (hg : s.Gives t given) (n : Int) : Column.id.fill given n = .integer n := by
  have hgiven := hg _ _ h.number
  rw [if_neg h.id_not_written] at hgiven
  rw [Column.fill, hgiven]
  rfl

/-- No other column depends on the number of the row. -/
theorem Fits.fill_eq (h : s.Fits t conflict) {c : Column} (hc : c ∈ t.columns) (hid : c.name ≠ Column.id.name)
    (given : List (String × Cell)) (n m : Int) : c.fill given n = c.fill given m := by
  have hfilling : c.filling ≠ .number := by
    rcases h.column_cases (Table.column?_of_mem h.columns hc) with ⟨-, hf, -⟩ | ⟨-, hname | ⟨hf, -⟩⟩
    · simp [hf]
    · exact absurd (congrArg Column.name hname) hid
    · simp [hf]
  cases hget : Keyed.get? c.name given with
  | none => cases hf : c.filling <;> simp_all [Column.fill]
  | some x => cases x <;> cases hf : c.filling <;> simp_all [Column.fill]

theorem Fits.under_row (h : s.Fits t conflict) (hg : s.Gives t given) (ho : s.Gives t other) (n m : Int) :
    (t.row given m).under (t.row other n) = t.row given n := by
  have hnumber : (t.row other n).cell Column.id.name = .integer n := by
    rw [Table.cell_row h.number, h.fill_id ho]
  simp only [Row.under, Table.row, List.map_map]
  congr 1
  apply List.map_congr_left
  intro c hc
  by_cases hid : c.name = Column.id.name
  · obtain rfl : c = Column.id := by
      have hfind := Table.column?_of_mem h.columns hc
      rw [hid, h.number] at hfind
      exact (Option.some.inj hfind).symm
    have hcell : Row.cell ⟨t.columns.map fun c => (c.name, c.fill other n)⟩ Column.id.name = .integer n := hnumber
    simp only [Function.comp_apply, if_true, hcell, h.fill_id hg]
  · simp only [Function.comp_apply, if_neg hid, h.fill_eq hc hid given m n]

theorem Fits.map_cell_row (h : s.Fits t conflict) (hg : s.Gives t given) (n : Int) :
    s.conflictKeys.map (t.row given n).cell = s.keyOf given := by
  apply List.map_congr_left
  intro k hk
  rw [h.get?_row hg (h.keyed k hk).1 n, Option.getD_some]

theorem Fits.key_ne_null (h : s.Fits t conflict) (hg : s.Gives t given) {k : String} (hk : k ∈ s.conflictKeys) (n : Int) :
    (t.row given n).cell k ≠ .null := by
  obtain ⟨hw, hcol⟩ := h.keyed k hk
  obtain ⟨c, hc, hneeded⟩ := (Option.any_eq_true _ _).1 hcol
  have hgiven := hg k c hc
  rw [if_pos hw] at hgiven
  obtain ⟨x, hx, hnull⟩ := hgiven
  rw [h.get?_row hg hw n] at hx
  intro hcell
  simp [hnull ((Option.some.inj hx).symm.trans hcell)] at hneeded

/-- A row has the key of another one if the cells of their keys are the same. -/
theorem Fits.taken_row (h : s.Fits t conflict) (hg : s.Gives t given) (ho : s.Gives t other) (n m : Int) :
    t.taken (t.row given m) (t.row other n) = true ↔ s.keyOf other = s.keyOf given := by
  rw [h.taken_eq, Row.agrees_iff, ← h.map_cell_row ho n, ← h.map_cell_row hg m, List.map_inj_left]
  exact ⟨fun hall k hk => (hall k hk).1, fun hall k hk => ⟨hall k hk, h.key_ne_null ho hk n⟩⟩

theorem Fits.numbered_content (h : s.Fits t conflict) (hh : ∀ g ∈ history, s.Gives t g) :
    Row.Numbered (s.content t history) := by
  intro i r hi
  rw [content, List.getElem?_mapIdx] at hi
  obtain ⟨g, hg, rfl⟩ := Option.map_eq_some_iff.1 hi
  have hmem := ConflictPolicy.mem_of_pick (ConflictPolicy.mem_kept.1 (List.mem_of_getElem? hg))
  rw [Table.cell_row h.number, h.fill_id (hh g hmem)]

theorem Fits.any_taken_content (h : s.Fits t conflict) (hg : s.Gives t given) (hh : ∀ g ∈ history, s.Gives t g) (m : Int) :
    (s.content t history).any (t.taken (t.row given m)) = true ↔ s.keyOf given ∈ history.map s.keyOf := by
  rw [← s.policy.mem_map_kept, List.any_eq_true, List.mem_map]
  have hgives : ∀ g ∈ s.policy.kept s.keyOf history, s.Gives t g :=
    fun g hm => hh g (ConflictPolicy.mem_of_pick (ConflictPolicy.mem_kept.1 hm))
  constructor
  · rintro ⟨r, hr, htaken⟩
    obtain ⟨i, hi, rfl⟩ := List.mem_mapIdx.1 hr
    have hmem := List.getElem_mem hi
    exact ⟨_, hmem, (h.taken_row hg (hgives _ hmem) _ m).1 htaken⟩
  · rintro ⟨g, hmem, hkey⟩
    obtain ⟨i, hi, rfl⟩ := List.getElem_of_mem hmem
    exact ⟨_, List.mem_mapIdx.2 ⟨i, hi, rfl⟩, (h.taken_row hg (hgives _ hmem) _ m).2 hkey⟩

/-- Settling one more row is having it at the end of the history. -/
theorem Fits.settle_content (h : s.Fits t conflict) (hg : s.Gives t given) (hh : ∀ g ∈ history, s.Gives t g) :
    t.settle s.policy (s.content t history) given = s.content t (history ++ [given]) := by
  have hrow : t.newRow given (s.content t history) = t.row given ((s.policy.kept s.keyOf history).length + 1) := by
    rw [Table.newRow_eq, h.primaryKey, (h.numbered_content hh).nextNumber, content, List.length_mapIdx]
  have hany := h.any_taken_content hg hh ((s.policy.kept s.keyOf history).length + 1)
  simp only [Table.settle]
  rw [hrow]
  by_cases hk : s.keyOf given ∈ history.map s.keyOf
  · rw [if_pos (hany.2 hk)]
    cases hp : s.policy with
    | ignore =>
      have hmore : ∀ g ∈ [given], s.keyOf g ∈ history.map s.keyOf := by simpa using hk
      simp only [content, hp, ConflictPolicy.kept_ignore_append hmore]
    | update =>
      simp only [content, hp, ConflictPolicy.kept_update_concat hk]
      -- row by row: the one under the taken key is overwritten in its place, the others stay
      apply List.ext_getElem?
      intro i
      rw [List.getElem?_map, List.getElem?_mapIdx, List.getElem?_mapIdx, List.getElem?_map]
      cases hi : (ConflictPolicy.update.kept s.keyOf history)[i]? with
      | none => rfl
      | some g =>
        have hgg := hh g (ConflictPolicy.mem_of_pick (ConflictPolicy.mem_kept.1 (List.mem_of_getElem? hi)))
        have htaken := h.taken_row hg hgg (i + 1) ((ConflictPolicy.update.kept s.keyOf history).length + 1)
        simp only [Option.map_some]
        by_cases hsame : s.keyOf g = s.keyOf given
        · rw [if_pos (htaken.2 hsame), if_pos hsame, h.under_row hg hgg]
        · rw [if_neg fun e => hsame (htaken.1 e), if_neg hsame]
  · rw [if_neg fun e => hk (hany.1 e), content, content, ConflictPolicy.kept_concat_new s.policy hk, List.mapIdx_concat]

/-- Rows that are all settled stand behind the history, each with its cells. -/
theorem Fits.settleAll_content (h : s.Fits t conflict) (hp : ∀ p ∈ ps, s.Takes t p) (hh : ∀ g ∈ history, s.Gives t g)
    {rows : List Row} (he : t.settleAll s.policy ps (s.content t history) = .ok rows) :
    rows = s.content t (history ++ t.cellsOf ps) ∧ (∀ g ∈ history ++ t.cellsOf ps, s.Gives t g) ∧
      (t.cellsOf ps).length = ps.length := by
  induction ps generalizing history with
  | nil =>
    cases he
    simpa [Table.cellsOf] using hh
  | cons p rest ih =>
    obtain ⟨hfirst, hlater⟩ := List.forall_mem_cons.1 hp
    rw [Table.settleAll] at he
    rcases hfirst.cells_bound h with ⟨-, hc⟩ | ⟨-, given, hc, -, hg⟩
    · rw [hc] at he
      cases he
    have hcells : t.cellsOf (p :: rest) = given :: t.cellsOf rest := by
      rw [Table.cellsOf, List.filterMap_cons, hc]
      rfl
    have hall : ∀ g ∈ history ++ [given], s.Gives t g := by
      intro g hm
      rcases List.mem_append.1 hm with hm | hm
      · exact hh g hm
      · rw [List.mem_singleton.1 hm]
        exact hg
    rw [hc] at he
    simp only at he
    rw [h.settle_content hg hh] at he
    obtain ⟨hrows, hgives, hlength⟩ := ih hlater hall he
    rw [hcells, List.length_cons, List.length_cons, hlength, List.append_cons]
    exact ⟨hrows, hgives, rfl⟩

end Schema

end FeedLedger
