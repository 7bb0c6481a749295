import FeedLedger.Proofs.Committed
import FeedLedger.Proofs.Content
import FeedLedger.Proofs.Holding

namespace FeedLedger

namespace Schema

/-- Rows that a history of cells has led to. -/
structure Tells (s : Schema) (t : Table) (history : List (List (String × Cell))) (rows : List Row) : Prop where
  gives : ∀ given ∈ history, s.Gives t given
  rows_eq : rows = s.content t history

variable {s : Schema} {t : Table} {conflict : Conflict} {history : List (List (String × Cell))} {rows : List Row}

theorem tells_nil (s : Schema) (t : Table) : s.Tells t [] [] := ⟨by simp, rfl⟩

theorem Tells.numbered (hh : s.Tells t history rows) (h : s.Fits t conflict) : Row.Numbered rows := by
  rw [hh.rows_eq]
  exact h.numbered_content hh.gives

/-- The number of a row and the item of the history that stands for its key. -/
theorem Tells.getElem? (hh : s.Tells t history rows) {i : Nat} {r : Row} (hr : rows[i]? = some r) :
    ∃ given, (s.policy.kept s.keyOf history)[i]? = some given ∧ s.Gives t given ∧ r = t.row given (i + 1) := by
  rw [hh.rows_eq, content, List.getElem?_mapIdx] at hr
  obtain ⟨given, hgiven, rfl⟩ := Option.map_eq_some_iff.1 hr
  exact ⟨given, hgiven, hh.gives _ (ConflictPolicy.mem_of_pick (ConflictPolicy.mem_kept.1 (List.mem_of_getElem? hgiven))), rfl⟩

/-- There is one row for each key, in the order in which the keys first came up. -/
theorem Tells.keys (hh : s.Tells t history rows) (h : s.Fits t conflict) :
    rows.map (fun r => s.conflictKeys.map r.cell) = ConflictPolicy.keys s.keyOf history := by
  rw [← ConflictPolicy.map_key_kept s.policy]
  apply List.ext_getElem?
  intro i
  rw [List.getElem?_map, List.getElem?_map]
  cases hr : rows[i]? with
  | none =>
    have hlength : rows.length = (s.policy.kept s.keyOf history).length := by rw [hh.rows_eq, content, List.length_mapIdx]
    rw [List.getElem?_eq_none_iff] at hr
    rw [List.getElem?_eq_none_iff.2 (hlength ▸ hr)]
    rfl
  | some r =>
    obtain ⟨given, hgiven, hgives, rfl⟩ := hh.getElem? hr
    rw [hgiven, Option.map_some, Option.map_some, h.map_cell_row hgives]

/-- A row has the cells of the item that stands for its key. -/
theorem Tells.values (hh : s.Tells t history rows) (h : s.Fits t conflict) {r : Row} (hr : r ∈ rows) :
    ∃ given, s.policy.pick s.keyOf history (s.conflictKeys.map r.cell) = some given ∧
      ∀ c ∈ s.writeColumns, Keyed.get? c given = some (r.cell c) := by
  obtain ⟨i, hi⟩ := List.mem_iff_getElem?.1 hr
  obtain ⟨given, hgiven, hgives, rfl⟩ := hh.getElem? hi
  rw [h.map_cell_row hgives]
  exact ⟨given, ConflictPolicy.mem_kept.1 (List.mem_of_getElem? hgiven), fun c hc => h.get?_row hgives hc _⟩

end Schema

namespace Commits

variable {o : BatchOrigin} {rs : List Record} {chunks : List Chunk} {before after : Store}

/-- A committed batch adds the cells of its rows to the history, each row's. -/
theorem tells (h : Commits Registry.schema? o rs chunks before after) (hs : before.Sound) {table : String} {s : Schema}
    {t : Table} {conflict : Conflict} (e : Registry.Entry table s t conflict) {history : List (List (String × Cell))}
    (hh : s.Tells t history (before.rows table)) :
    let handed := Batch.handed (IngestKey.batchName o.stream o.offset) table (Batch.validRecords Registry.schema? rs)
    s.Tells t (history ++ t.cellsOf handed) (after.rows table) ∧ (t.cellsOf handed).length = handed.length := by
  have he := h.settleAll hs e
  rw [hh.rows_eq] at he
  obtain ⟨hrows, hgives, hlength⟩ := e.fits.settleAll_content (fun p hp => Batch.takes_of_mem_handed e hp) hh.gives he
  exact ⟨⟨hgives, hrows⟩, hlength⟩

end Commits

end FeedLedger
