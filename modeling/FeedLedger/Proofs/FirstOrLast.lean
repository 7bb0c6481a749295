import FeedLedger.Proofs.History

namespace FeedLedger

/-- The parameters of rows with a natural key name nothing else. -/
theorem Schema.Fits.paramsFrom_natural {s : Schema} {t : Table} {conflict : Conflict} (h : s.Fits t conflict)
    (hnatural : s.syntheticKey = false) (batch : String) (n : Nat) {rows : List (List Value)}
    (hl : ∀ row ∈ rows, row.length = s.columns.length) :
    Writer.paramsFrom s batch n rows = rows.map (s.columns.zip ·) := by
  induction rows generalizing n with
  | nil => rfl
  | cons row rest ih =>
    obtain ⟨hfirst, hlater⟩ := List.forall_mem_cons.1 hl
    rw [Writer.paramsFrom, ih (n + 1) hlater, h.params_eq batch n hfirst, hnatural, if_neg Bool.false_ne_true,
      List.append_nil, List.map_cons]

theorem Batch.handed_natural {table : String} {s : Schema} {t : Table} {conflict : Conflict}
    (e : Registry.Entry table s t conflict) (hnatural : s.syntheticKey = false) (batch : String) (rs : List Record) :
    handed batch table (validRecords Registry.schema? rs) =
      (rowsOf table (validRecords Registry.schema? rs)).map (s.columns.zip ·) := by
  rw [handed_eq e.known]
  exact e.fits.paramsFrom_natural hnatural batch 0 fun row hrow => length_of_mem_rowsOf e.known hrow

namespace Schema

/-- Rows that stand one for each key of a history, with the cells of the item that stands for the key: the first one
that has it, or the last one where rows are overwritten. -/
structure OnePerKey (s : Schema) (history : List (List (String × Cell))) (rows : List Row) : Prop where
  keys : rows.map (fun r => s.conflictKeys.map r.cell) = ConflictPolicy.keys s.keyOf history
  values : ∀ r ∈ rows, ∃ given, s.policy.pick s.keyOf history (s.conflictKeys.map r.cell) = some given ∧
    ∀ c ∈ s.columns, Keyed.get? c given = some (r.cell c)

variable {s : Schema} {t : Table} {conflict : Conflict} {history more : List (List (String × Cell))}
  {rows rows' : List Row}

theorem Tells.onePerKey (hh : s.Tells t history rows) (h : s.Fits t conflict) : s.OnePerKey history rows := by
  refine ⟨hh.keys h, fun r hr => ?_⟩
  obtain ⟨given, hpick, hcells⟩ := hh.values h hr
  exact ⟨given, hpick, fun c hc => hcells c (s.columns_subset hc)⟩

/-- A row stays under its number when the history goes on. -/
theorem Tells.stays (hh : s.Tells t history rows) (hh' : s.Tells t (history ++ more) rows') (h : s.Fits t conflict)
    {r : Row} (hr : r ∈ rows) :
    ∃ q ∈ rows', q.cell Column.id.name = r.cell Column.id.name ∧
      s.conflictKeys.map q.cell = s.conflictKeys.map r.cell := by
  obtain ⟨i, hi⟩ := List.mem_iff_getElem?.1 hr
  -- the earlier keys are a prefix of the later ones, so the row keeps its place and thereby its number
  have hkeys : (rows.map fun r => s.conflictKeys.map r.cell) <+: rows'.map fun r => s.conflictKeys.map r.cell := by
    rw [hh.keys h, hh'.keys h]
    exact ConflictPolicy.keys_append s.keyOf history more
  obtain ⟨later, hlater⟩ := hkeys
  have hkey : (rows'.map fun r => s.conflictKeys.map r.cell)[i]? = some (s.conflictKeys.map r.cell) := by
    rw [← hlater, List.getElem?_append_left (by simpa using (List.getElem?_eq_some_iff.1 hi).1), List.getElem?_map, hi,
      Option.map_some]
  rw [List.getElem?_map] at hkey
  obtain ⟨q, hq, hsame⟩ := Option.map_eq_some_iff.1 hkey
  refine ⟨q, List.mem_of_getElem? hq, ?_, hsame⟩
  rw [hh'.numbered h i q hq, hh.numbered h i r hi]

end Schema

namespace Attempt

variable {table : String} {s : Schema} {t : Table} {conflict : Conflict}

/-- The rows that some calls bring for the table of a schema, one behind the other, as the table holds them. -/
def given (s : Schema) (t : Table) (calls : List Attempt) : List (List (String × Cell)) :=
  t.cellsOf ((calls.flatMap (·.rowsFor s.table)).map (s.columns.zip ·))

theorem given_concat (s : Schema) (t : Table) (calls : List Attempt) (a : Attempt) :
    given s t (calls ++ [a]) = given s t calls ++ t.cellsOf ((a.rowsFor s.table).map (s.columns.zip ·)) := by
  simp [given, Table.cellsOf_append]

/-- A table that holds, behind a history, the rows of the calls committed so far, each with its cells. -/
structure Counted (s : Schema) (t : Table) (history : List (List (String × Cell))) (store : Store)
    (done : List Attempt) : Prop where
  sound : store.Sound
  tells : s.Tells t (history ++ given s t done) (store.rows s.table)
  all : (given s t done).length = (done.flatMap (·.rowsFor s.table)).length

variable {history : List (List (String × Cell))} {a : Attempt} {o : BatchOrigin} {chunks : List Chunk}
  {before after : Store} {done calls : List Attempt} {l : Ledger}

theorem Counted.commit (h : Counted s t history before done) (e : Registry.Entry s.table s t conflict)
    (hnatural : s.syntheticKey = false) (hc : a.Committed o chunks before after) :
    Counted s t history after (done ++ [a]) := by
  obtain ⟨htells, hall⟩ := hc.commits.tells h.sound e h.tells
  rw [Batch.handed_natural e hnatural] at htells hall
  constructor
  case sound => exact hc.commits.sound h.sound
  case tells =>
    rw [given_concat, ← List.append_assoc]
    exact htells
  case all =>
    rw [given_concat, List.length_append, h.all, List.flatMap_append, List.flatMap_singleton, List.length_append]
    congr 1
    exact hall.trans (List.length_map _)

theorem counted_run (e : Registry.Entry s.table s t conflict) (hnatural : s.syntheticKey = false)
    (hb : ∀ a ∈ calls, a.schemas = Registry.schema?) (hl : l.store.Sound)
    (hh : s.Tells t history (l.store.rows s.table)) :
    Counted s t history (run l calls).2.store (returning l calls) := by
  have hstart : Counted s t history l.store [] := ⟨hl, by simpa [given, Table.cellsOf] using hh, rfl⟩
  have hrun := run_keeps hb (fun _ _ _ _ _ _ hc h => Counted.commit h e hnatural hc) hstart
  rwa [List.nil_append] at hrun

theorem counted_fresh (e : Registry.Entry s.table s t conflict) (hnatural : s.syntheticKey = false)
    (hb : ∀ a ∈ calls, a.schemas = Registry.schema?) :
    Counted s t [] (run .fresh calls).2.store (returning .fresh calls) :=
  counted_run e hnatural hb Store.sound_empty (s.tells_nil t)

/-- After any run, a table with a natural key has one row for each key that a committed record brought, with the values
that came first, or last where rows are overwritten. A row keeps its number from its first coming on. How the records
were cut into batches makes no difference, nor do records that come again and are skipped. -/
theorem first_or_last_is_held (calls : List Attempt) (hb : ∀ a ∈ calls, a.schemas = Registry.schema?) (s : Schema)
    (hs : s ∈ Registry.schemas) (hnatural : s.syntheticKey = false) :
    ∃ t, Catalog.table? s.table = some t ∧
      let rows (calls : List Attempt) := (run .fresh calls).2.store.rows s.table
      let brought (calls : List Attempt) := given s t (returning .fresh calls)
      (brought calls).length = ((returning .fresh calls).flatMap (·.rowsFor s.table)).length ∧
      s.OnePerKey (brought calls) (rows calls) ∧ Row.Numbered (rows calls) ∧
      (∀ earlier later, calls = earlier ++ later → ∀ r ∈ rows earlier, ∃ q ∈ rows calls,
        q.cell Column.id.name = r.cell Column.id.name ∧ s.conflictKeys.map q.cell = s.conflictKeys.map r.cell) ∧
      ∀ other : List Attempt, (∀ a ∈ other, a.schemas = Registry.schema?) → ∀ first again rest,
        brought calls = first ++ rest → brought other = first ++ again ++ rest →
        (again ≠ [] → s.policy = .ignore ∧ ∀ g ∈ again, s.keyOf g ∈ first.map s.keyOf) → rows other = rows calls := by
  obtain ⟨t, conflict, e⟩ := Registry.entry_of_schema? (Registry.schema?_of_mem hs)
  refine ⟨t, e.listed, ?_⟩
  intro rows brought
  have hcalls := counted_fresh e hnatural hb
  refine ⟨hcalls.all, hcalls.tells.onePerKey e.fits, hcalls.tells.numbered e.fits, ?_, ?_⟩
  · rintro earlier later rfl r hr
    obtain ⟨hearlier, hlater⟩ := List.forall_mem_append.1 hb
    have hbefore := counted_fresh e hnatural hearlier
    have hafter := (counted_run e hnatural hlater hbefore.sound hbefore.tells).tells
    rw [← run_append] at hafter
    exact hbefore.tells.stays hafter e.fits hr
  · intro other hother first again rest hfirst hagain hskipped
    have hothers := (counted_fresh e hnatural hother).tells.rows_eq
    rw [List.nil_append] at hothers
    rw [show rows other = s.content t (brought other) from hothers, hagain,
      show rows calls = s.content t (brought calls) from hcalls.tells.rows_eq, hfirst]
    by_cases hnone : again = []
    · rw [hnone, List.append_nil]
    · obtain ⟨hignore, htaken⟩ := hskipped hnone
      exact Schema.content_again hignore htaken t rest

/-- A score that comes again is skipped. An indicator that comes again overwrites its row under the number that it has,
and a measure that it does not bring is null then. The batch that fails in between counts for neither. -/
theorem second_coming_is_settled :
    let indicator (price : Value) (measures : List (String × Value)) : Record :=
      ⟨"indicators", [("symbol", .text "BTC"), ("timestamp", .int 1700000000000), ("close_price", price)] ++ measures⟩
    let first := [.ok (.sentiment (.int 50)), .ok (indicator (.int 1) [("rsi_14", .int 30)])]
    let second := [.ok (.sentiment (.int 51)), .ok (indicator (.int 2) [])]
    let calls := [Write.ingest (.text "s") first (.int 1), .ingest (.text "s") (first ++ second) (.int (-1)),
      .submit 1 ⟨.text "r", second, .int 7⟩].map (Attempt.mk Registry.schema? 1 false [] [])
    let rows (s : Schema) := (run .fresh calls).2.store.rows s.table
    (∀ a ∈ calls, a.schemas = Registry.schema?) ∧ Registry.fearGreedIndex ∈ Registry.schemas ∧
      Registry.indicators ∈ Registry.schemas ∧ Registry.indicators.syntheticKey = false ∧
      (rows Registry.fearGreedIndex).map (·.cell "score") = [.integer 50] ∧
      (rows Registry.indicators).map (·.cell "rsi_14") = [.null] ∧ Row.Numbered (rows Registry.indicators) ∧
      ∃ t, Registry.indicators.OnePerKey (given Registry.indicators t (returning .fresh calls)) (rows Registry.indicators) := by
  intro indicator first second calls rows
  have hb : ∀ a ∈ calls, a.schemas = Registry.schema? := List.forall_mem_map.2 fun _ _ => rfl
  have hscores : Registry.fearGreedIndex ∈ Registry.schemas := by decide +kernel
  have hindicators : Registry.indicators ∈ Registry.schemas := by decide +kernel
  obtain ⟨t, -, -, honce, hnumbered, -⟩ := first_or_last_is_held calls hb Registry.indicators hindicators rfl
  exact ⟨hb, hscores, hindicators, rfl, by decide +kernel, by decide +kernel, hnumbered, t, honce⟩

end Attempt

end FeedLedger
