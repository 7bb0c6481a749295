import FeedLedger.Proofs.Calendar
import FeedLedger.Proofs.FirstOrLast

namespace FeedLedger

namespace FieldType

/-- The microseconds of the unit that numbers for a time count. -/
def unitMicros? : FieldType → Option Nat
  | timestamp => some 1000
  | epochSeconds => some 1000000
  | _ => none

theorem coerce_of_unitMicros? {type : FieldType} {unit : Nat} (h : type.unitMicros? = some unit) (v : Value) :
    v.coerce type = .ofOption .moment (v.toMoment? unit) := by
  cases type <;> cases h <;> rfl

theorem timestamp_of_takes {type : FieldType} {unit : Nat} (h : type.unitMicros? = some unit) {column : ColumnType}
    (ht : column.takes type = true) : column = .timestamp := by
  cases type <;> cases h <;> cases column <;> first | rfl | exact Bool.noConfusion ht

end FieldType

namespace Value

/-- The instant of a given time, in microseconds since the epoch. A reading without an offset is one of universal time,
and a number counts units since the epoch. -/
def instant? (unit : Nat) : Value → Option Int
  | moment m => some m.instant
  | v => v.toInt?.map fun n => n * unit

/-- How far the clock is ahead of universal time that a time was read from. -/
def clockOffset : Value → Int
  | moment m => m.offset.getD 0
  | _ => 0

/-- A reading is one of the calendar and a clock. -/
def IsTime : Value → Prop
  | moment m => m.wall.IsValid
  | _ => True

/-- What the clock of a time showed is its instant, moved by the clock's offset. -/
theorem micros_of_toMoment? {v : Value} {unit : Nat} {m : Moment} (h : v.toMoment? unit = some m) (hv : v.IsTime) :
    m.wall.IsValid ∧ ∃ i, v.instant? unit = some i ∧ (m.wall.micros : Int) = i + v.clockOffset + Moment.epochMicros := by
  have of_number (hmoment : v.toMoment? unit = v.toInt?.bind fun n => Moment.ofEpoch? (n * unit))
      (hinstant : v.instant? unit = v.toInt?.map fun n => n * (unit : Int)) (hoffset : v.clockOffset = 0) :
      m.wall.IsValid ∧
        ∃ i, v.instant? unit = some i ∧ (m.wall.micros : Int) = i + v.clockOffset + Moment.epochMicros := by
    rw [hmoment] at h
    obtain ⟨n, hn, hm⟩ := Option.bind_eq_some_iff.1 h
    obtain ⟨hvalid, hmicros⟩ := Moment.ofEpoch?_spec hm
    exact ⟨hvalid, n * unit, by rw [hinstant, hn]; rfl, by rw [hmicros, hoffset, Int.add_zero]⟩
  cases v with
  | moment given =>
    cases h
    refine ⟨hv, given.instant, rfl, ?_⟩
    simp only [Moment.withOffset, Moment.instant, clockOffset]
    omega
  | _ => exact of_number rfl rfl rfl

end Value

namespace Schema

/-- The field of the key that holds a time, and the unit that numbers for it count. -/
def timeKey? (s : Schema) : Option (Field × Nat) :=
  (s.fields.filter (·.column ∈ s.conflictKeys)).findSome? fun f => f.type.unitMicros?.map (f, ·)

theorem timeKey?_spec {s : Schema} {f : Field} {unit : Nat} (h : s.timeKey? = some (f, unit)) :
    f ∈ s.fields ∧ f.column ∈ s.conflictKeys ∧ f.type.unitMicros? = some unit := by
  obtain ⟨g, hg, hunit⟩ := List.exists_of_findSome?_eq_some h
  obtain ⟨hmem, hkey⟩ := List.mem_filter.1 hg
  obtain ⟨u, hu, hpair⟩ := Option.map_eq_some_iff.1 hunit
  cases hpair
  exact ⟨hmem, by simpa using hkey, hu⟩

end Schema

/-- Rows with natural keys are one for each record, and their keys hold a required time. -/
theorem Registry.timed_of_natural : ∀ s ∈ schemas, s.syntheticKey = false →
    s.expansion = .scalar ∧ (s.timeKey?.any (·.1.required)) = true := by
  decide +kernel

/-- Cells bind nothing but cells. -/
theorem BoundInsert.bound_of_cells {l : List (String × Binding)} {given : List (String × Cell)}
    (h : cells l = .ok given) : l = given.map fun q => (q.1, .cell q.2) := by
  induction l generalizing given with
  | nil =>
    cases h
    rfl
  | cons q rest ih =>
    obtain ⟨column, binding⟩ := q
    cases binding with
    | cell c =>
      cases hrest : cells rest with
      | error f =>
        rw [cells, hrest] at h
        cases h
      | ok more =>
        rw [cells, hrest] at h
        cases h
        rw [ih hrest]
        rfl
    | _ => cases h

/-- Under their columns, the values of a row are those that it was made of. -/
theorem ValidRecord.get?_rowOf {v : ValidRecord} (h : v.schema.columns.Nodup) (values : List (String × Value))
    {column : String} (hc : column ∈ v.schema.columns) :
    Keyed.get? column (v.schema.columns.zip (v.rowOf values)) = some ((Keyed.get? column values).getD .null) := by
  have hzip : v.schema.columns.zip (v.rowOf values) =
      v.schema.columns.map fun c => (c, (Keyed.get? c values).getD .null) := Keyed.zip_map _ _
  have hkeys : (Keyed.keys (v.schema.columns.map fun c => (c, (Keyed.get? c values).getD .null))).Nodup := by
    simpa [Keyed.keys, Function.comp_def] using h
  rw [hzip]
  exact Keyed.get?_of_mem hkeys (List.mem_map_of_mem (f := fun c => (c, (Keyed.get? c values).getD .null)) hc)

namespace Attempt

/-- The valid records that some calls bring. -/
def validated (calls : List Attempt) : List ValidRecord :=
  calls.flatMap fun a => Batch.validRecords Registry.schema? a.write.sources

variable {s : Schema} {t : Table} {conflict : Conflict} {history : List (List (String × Cell))} {store : Store}
  {done : List Attempt} {v w : ValidRecord}

/-- A validated record has the values of its fields, none of the required ones null. -/
theorem fields_of_validated (hv : v ∈ validated done) :
    v.values = v.source.fieldValues v.schema ∧ v.source.missingKeys v.schema = [] := by
  obtain ⟨a, -, hv⟩ := List.mem_flatMap.1 hv
  obtain ⟨-, r, -, hvalid⟩ := Batch.schema?_of_valid hv
  obtain ⟨hmissing, hvr⟩ := Record.validate_eq_ok_iff.1 hvalid
  rw [hvr] at hmissing ⊢
  exact ⟨rfl, hmissing⟩

/-- Where each record makes one row, the cells of a committed record stand in the history of its table. -/
theorem Counted.cells_of_validated (h : Counted s t history store done) (e : Registry.Entry s.table s t conflict)
    (hscalar : s.expansion = .scalar) (hv : v ∈ validated done) (hschema : v.schema = s) :
    ∃ g ∈ given s t done, ∀ k ∈ s.columns, Keyed.get? k (t.bound v.values) = (Keyed.get? k g).map .cell := by
  subst hschema
  obtain ⟨hvalues, -⟩ := fields_of_validated hv
  obtain ⟨a, ha, hv⟩ := List.mem_flatMap.1 hv
  have hown : v.rowOf v.values ∈ v.rows := by
    rw [ValidRecord.rows, hscalar]
    exact List.mem_singleton.2 rfl
  have hrow : v.rowOf v.values ∈ a.rowsFor v.schema.table :=
    List.mem_flatMap.2 ⟨v, List.mem_filter.2 ⟨hv, by simp⟩, hown⟩
  have hparams : v.schema.columns.zip (v.rowOf v.values) ∈
      (done.flatMap (·.rowsFor v.schema.table)).map (v.schema.columns.zip ·) :=
    List.mem_map_of_mem (List.mem_flatMap.2 ⟨a, ha, hrow⟩)
  -- all rows that were brought have cells, as many as there are
  have hall : (given v.schema t done).length =
      ((done.flatMap (·.rowsFor v.schema.table)).map (v.schema.columns.zip ·)).length := by
    rw [h.all, List.length_map]
  obtain ⟨g, hg⟩ := Option.isSome_iff_exists.1 (List.filterMap_length_eq_length.1 hall _ hparams)
  refine ⟨g, List.mem_filterMap.2 ⟨_, hparams, hg⟩, fun k hk => ?_⟩
  have hsome : ∃ x, Keyed.get? k v.values = some x := by
    rcases Schema.mem_columns hk with ⟨f, hf, rfl⟩ | ⟨hlevels, -⟩
    · exact ⟨_, by rw [hvalues]; exact Schema.get?_fieldValues e.fits.distinct v.source hf⟩
    · rw [hscalar] at hlevels
      cases hlevels
  obtain ⟨x, hx⟩ := hsome
  have hbound := BoundInsert.bound_of_cells (eq_ok_of_toOption hg)
  rw [← Keyed.get?_mapValues fun _ x => Binding.cell x, ← hbound, Table.get?_bound, Table.get?_bound,
    ValidRecord.get?_rowOf e.fits.ordered v.values hk, hx, Option.getD_some]

/-- Every committed record falls on one row. -/
theorem Counted.falls (h : Counted s t history store done) (e : Registry.Entry s.table s t conflict)
    (hnatural : s.syntheticKey = false) (hscalar : s.expansion = .scalar) (hv : v ∈ validated done)
    (hschema : v.schema = s) : ∃! row, row ∈ store.rows s.table ∧ t.Carries s.conflictKeys v.values row := by
  obtain ⟨g, hg, hcells⟩ := h.cells_of_validated e hscalar hv hschema
  have hmem := List.mem_append_right history hg
  have hkey (row : Row) : t.Carries s.conflictKeys v.values row ↔ s.conflictKeys.map row.cell = s.keyOf g := by
    rw [Table.carries_iff, Schema.keyOf, List.map_inj_left]
    refine forall_congr' fun k => forall_congr' fun hk => ?_
    obtain ⟨hw, hcolumn⟩ := e.fits.keyed k hk
    obtain ⟨c, hc, -⟩ := (Option.any_eq_true _ _).1 hcolumn
    have hgiven := h.tells.gives g hmem k c hc
    rw [if_pos hw] at hgiven
    obtain ⟨x, hx, -⟩ := hgiven
    rw [Schema.writeColumns, hnatural, if_neg Bool.false_ne_true] at hw
    rw [hcells k hw, hx, Option.map_some, Option.getD_some, Option.some.injEq, Binding.cell.injEq, eq_comm]
  have hkeys := h.tells.keys e.fits
  have hnodup := ConflictPolicy.nodup_keys s.keyOf (history ++ given s t done)
  have hin : s.keyOf g ∈ ConflictPolicy.keys s.keyOf (history ++ given s t done) :=
    ConflictPolicy.mem_keys.2 (List.mem_map_of_mem hmem)
  rw [← hkeys] at hnodup hin
  obtain ⟨row, hrow, hrowKey⟩ := List.mem_map.1 hin
  refine ⟨row, ⟨hrow, (hkey row).2 hrowKey⟩, fun other hother => ?_⟩
  exact List.inj_on_of_nodup_map hnodup hother.1 hrow (((hkey other).1 hother.2).trans hrowKey.symm)

end Attempt

/-- Two sets of values that agree in the rest of a key fall on one row if the table keeps the last column alike. -/
theorem Table.share_iff {t : Table} {columns : List String} {p q : Params} {rows : List Row} {column : String}
    (hp : ∃ row ∈ rows, t.Carries columns p row) (hcolumn : column ∈ columns)
    (hagree : ∀ k ∈ columns, k ≠ column → Keyed.get? k p = Keyed.get? k q) :
    (∃ row ∈ rows, t.Carries columns p row ∧ t.Carries columns q row) ↔
      Keyed.get? column (t.bound p) = Keyed.get? column (t.bound q) := by
  constructor
  · rintro ⟨row, -, hrow, hrow'⟩
    exact (carries_iff.1 hrow column hcolumn).trans (carries_iff.1 hrow' column hcolumn).symm
  · intro hsame
    obtain ⟨row, hmem, hrow⟩ := hp
    refine ⟨row, hmem, hrow, carries_iff.2 fun k hk => ?_⟩
    rw [← carries_iff.1 hrow k hk]
    by_cases hk' : k = column
    · rw [hk', hsame]
    · rw [get?_bound, get?_bound, hagree k hk hk']

namespace Attempt

variable {s : Schema} {t : Table} {conflict : Conflict} {done : List Attempt} {v w : ValidRecord}

/-- The time of a validated record's key is kept as what its clock showed. -/
theorem time_of_validated (e : Registry.Entry s.table s t conflict) {f : Field} {unit : Nat}
    (hkey : s.timeKey? = some (f, unit)) (hrequired : f.required = true) (hv : v ∈ validated done)
    (hschema : v.schema = s) :
    ∃ m, (v.source.value f.key).toMoment? unit = some m ∧
      Keyed.get? f.column (t.bound v.values) = some (.cell (.wall m.wall)) := by
  subst hschema
  obtain ⟨hvalues, hmissing⟩ := fields_of_validated hv
  obtain ⟨hf, -, hunit⟩ := Schema.timeKey?_spec hkey
  obtain ⟨c, hc, htakes⟩ := (Option.any_eq_true _ _).1 (e.fits.fields f hf)
  have htype : c.type = .timestamp := FieldType.timestamp_of_takes hunit (Bool.and_eq_true_iff.1 htakes).1
  have hvalue : v.source.fieldValue f = .ofOption .moment ((v.source.value f.key).toMoment? unit) :=
    FieldType.coerce_of_unitMicros? hunit _
  have hpresent : (v.source.fieldValue f).isNull = false := by
    have hnone := List.map_eq_nil_iff.1 hmissing
    simpa [hrequired] using List.filter_eq_nil_iff.1 hnone f hf
  cases hm : (v.source.value f.key).toMoment? unit with
  | none =>
    rw [hvalue, hm] at hpresent
    cases hpresent
  | some m =>
    refine ⟨m, rfl, ?_⟩
    rw [Table.get?_bound, hc, hvalues, Schema.get?_fieldValues e.fits.distinct v.source hf, hvalue, hm]
    simp only [Option.bind_some, Option.map_some, Value.ofOption, ColumnType.bind, htype, Binding.forTimestamp]

/-- In tables with natural keys, committed records that agree in the rest of the key fall on one row if their times,
each with the offset of its clock added, are the same. So of times from clocks with one offset those of one instant fall
on one row; but one instant falls on two rows where the offsets differ, and two instants may fall on one. -/
theorem one_row_iff_one_reading (calls : List Attempt) (hb : ∀ a ∈ calls, a.schemas = Registry.schema?) (s : Schema)
    (hs : s ∈ Registry.schemas) (hnatural : s.syntheticKey = false) :
    ∃ t f unit, Catalog.table? s.table = some t ∧ s.timeKey? = some (f, unit) ∧
      let rows := (run .fresh calls).2.store.rows s.table
      let time (v : ValidRecord) := v.source.value f.key
      ∀ v ∈ validated (returning .fresh calls), ∀ w ∈ validated (returning .fresh calls), v.schema = s → w.schema = s →
        (time v).IsTime → (time w).IsTime →
        (∀ k ∈ s.conflictKeys, k ≠ f.column → Keyed.get? k v.values = Keyed.get? k w.values) →
        ∃ i j, (time v).instant? unit = some i ∧ (time w).instant? unit = some j ∧
          (∃! row, row ∈ rows ∧ t.Carries s.conflictKeys v.values row) ∧
          (∃! row, row ∈ rows ∧ t.Carries s.conflictKeys w.values row) ∧
          ((∃ row ∈ rows, t.Carries s.conflictKeys v.values row ∧ t.Carries s.conflictKeys w.values row) ↔
            i + (time v).clockOffset = j + (time w).clockOffset) := by
  obtain ⟨t, conflict, e⟩ := Registry.entry_of_schema? (Registry.schema?_of_mem hs)
  obtain ⟨hscalar, htimed⟩ := Registry.timed_of_natural s hs hnatural
  obtain ⟨⟨f, unit⟩, hkey, hrequired⟩ := (Option.any_eq_true _ _).1 htimed
  refine ⟨t, f, unit, e.listed, hkey, ?_⟩
  intro rows time v hv w hw hvs hws hvt hwt hagree
  have hcalls := counted_fresh e hnatural hb
  have hfalls := hcalls.falls e hnatural hscalar hv hvs
  have hfalls' := hcalls.falls e hnatural hscalar hw hws
  obtain ⟨m, hm, hbound⟩ := time_of_validated e hkey hrequired hv hvs
  obtain ⟨m', hm', hbound'⟩ := time_of_validated e hkey hrequired hw hws
  obtain ⟨hvalid, i, hi, hmicros⟩ := Value.micros_of_toMoment? hm hvt
  obtain ⟨hvalid', j, hj, hmicros'⟩ := Value.micros_of_toMoment? hm' hwt
  refine ⟨i, j, hi, hj, hfalls, hfalls', ?_⟩
  have hshare := Table.share_iff (p := v.values) (q := w.values) hfalls.exists (Schema.timeKey?_spec hkey).2.1 hagree
  rw [hshare, hbound, hbound', Option.some.injEq, Binding.cell.injEq, Cell.wall.injEq]
  constructor
  · intro hwall
    rw [hwall] at hmicros
    exact (Int.add_left_inj _).1 (hmicros.symm.trans hmicros')
  · intro hsame
    apply Wall.eq_of_micros_eq hvalid hvalid'
    rw [← Int.natCast_inj, hmicros, hmicros']
    exact congrArg (· + (Moment.epochMicros : Int)) hsame

/-- A score of a given time. -/
def scoreAt (time : Value) : Record :=
  ⟨"fear_greed_index", [("value", .int 50), ("classification", .text "Fear"), ("update_time", time)]⟩

/-- The score with its converted fields. -/
def validScoreAt (time : Value) : ValidRecord :=
  ⟨Registry.fearGreedIndex, (scoreAt time).fieldValues Registry.fearGreedIndex, scoreAt time⟩

/-- A call that brings scores of two times. -/
def twoScores (first second : Value) : Attempt :=
  ⟨Registry.schema?, 1, false, [], [], .ingest (.text "s") [.ok (scoreAt first), .ok (scoreAt second)] (.int 1)⟩

theorem validScoreAt_mem {first second time : Value} (hok : (twoScores first second |>.carryOut .fresh).1.isOk = true)
    (htime : time = first ∨ time = second) (hm : (scoreAt time).missingKeys Registry.fearGreedIndex = []) :
    validScoreAt time ∈ validated (returning .fresh [twoScores first second]) := by
  have hreturn : returning .fresh [twoScores first second] = [twoScores first second] := by simp [returning, hok]
  rw [hreturn]
  refine List.mem_flatMap.2 ⟨_, List.mem_singleton_self _, Batch.mem_validRecords.2 ⟨scoreAt time, ?_, ?_⟩⟩
  · rcases htime with rfl | rfl
    · exact List.mem_cons_self
    · exact List.mem_cons_of_mem _ List.mem_cons_self
  · have hknown : Registry.schema? "fear_greed_index" = some Registry.fearGreedIndex := by decide +kernel
    rw [show (scoreAt time).table = "fear_greed_index" from rfl, hknown]
    exact Record.validate_eq_ok_iff.2 ⟨hm, rfl⟩

theorem timeKey?_fearGreedIndex :
    Registry.fearGreedIndex.timeKey? = some (Registry.needed "update_time" .epochSeconds, 1000000) := by decide +kernel

/-- A number of seconds, as a text, and the reading of a clock without an offset. -/
theorem number_and_reading_fall_on_one_row :
    let wall : Wall := ⟨2023, 11, 14, 22, 13, 20, 0⟩
    let calls := [twoScores (.text "1700000000") (.moment ⟨wall, none⟩)]
    Value.IsTime (.moment ⟨wall, none⟩) ∧ ∃ t, ∃ row ∈ (run .fresh calls).2.store.rows Registry.fearGreedIndex.table,
      Table.Carries t Registry.fearGreedIndex.conflictKeys (validScoreAt (.text "1700000000")).values row ∧
        Table.Carries t Registry.fearGreedIndex.conflictKeys (validScoreAt (.moment ⟨wall, none⟩)).values row := by
  intro wall calls
  have hwall : Value.IsTime (.moment ⟨wall, none⟩) :=
    ⟨⟨by decide, by decide, by decide, 30, rfl, by decide⟩, by decide, by decide, by decide, by decide⟩
  have hok : (twoScores (.text "1700000000") (.moment ⟨wall, none⟩) |>.carryOut .fresh).1.isOk = true := by
    decide +kernel
  obtain ⟨t, f, unit, -, hkey, hall⟩ := one_row_iff_one_reading calls (List.forall_mem_singleton.2 rfl)
    Registry.fearGreedIndex (by decide +kernel) rfl
  rw [timeKey?_fearGreedIndex] at hkey
  cases hkey
  have hagree (k : String) (hk : k ∈ Registry.fearGreedIndex.conflictKeys) (hne : k ≠ "update_time") :
      Keyed.get? k (validScoreAt (.text "1700000000")).values = Keyed.get? k (validScoreAt (.moment ⟨wall, none⟩)).values :=
    absurd (List.mem_singleton.1 hk) hne
  obtain ⟨i, j, hi, hj, -, -, hiff⟩ := hall _ (validScoreAt_mem hok (.inl rfl) (by decide +kernel)) _
    (validScoreAt_mem hok (.inr rfl) (by decide +kernel)) rfl rfl trivial hwall hagree
  have hi' : Value.instant? 1000000 (.text "1700000000") = some 1700000000000000 := by decide +kernel
  have hj' : Value.instant? 1000000 (.moment ⟨wall, none⟩) = some 1700000000000000 := by decide +kernel
  have hsame : i = j := by
    have heq : some i = some j := hi.symm.trans (hi'.trans (hj'.symm.trans hj))
    exact Option.some.inj heq
  exact ⟨hwall, t, hiff.2 (by rw [hsame]; rfl)⟩

/-- Noon of universal time and noon of a clock that is ahead of it are no single instant, but one row. -/
theorem two_instants_fall_on_one_row :
    ¬ ∀ (calls : List Attempt), (∀ a ∈ calls, a.schemas = Registry.schema?) → ∀ s ∈ Registry.schemas,
      s.syntheticKey = false → ∀ t f unit, Catalog.table? s.table = some t → s.timeKey? = some (f, unit) →
        ∀ v ∈ validated (returning .fresh calls), ∀ w ∈ validated (returning .fresh calls), v.schema = s → w.schema = s →
          (v.source.value f.key).IsTime → (w.source.value f.key).IsTime →
          (∀ k ∈ s.conflictKeys, k ≠ f.column → Keyed.get? k v.values = Keyed.get? k w.values) →
          ((∃ row ∈ (run .fresh calls).2.store.rows s.table,
              t.Carries s.conflictKeys v.values row ∧ t.Carries s.conflictKeys w.values row) ↔
            (v.source.value f.key).instant? unit = (w.source.value f.key).instant? unit) := by
  intro h
  have hnoon : (⟨2024, 1, 1, 12, 0, 0, 0⟩ : Wall).IsValid :=
    ⟨⟨by decide, by decide, by decide, 31, rfl, by decide⟩, by decide, by decide, by decide, by decide⟩
  have hok : (twoScores (.moment ⟨⟨2024, 1, 1, 12, 0, 0, 0⟩, some 0⟩)
      (.moment ⟨⟨2024, 1, 1, 12, 0, 0, 0⟩, some 19800000000⟩) |>.carryOut .fresh).1.isOk = true := by decide +kernel
  have hiff := h [twoScores (.moment ⟨⟨2024, 1, 1, 12, 0, 0, 0⟩, some 0⟩)
      (.moment ⟨⟨2024, 1, 1, 12, 0, 0, 0⟩, some 19800000000⟩)] (List.forall_mem_singleton.2 rfl)
    Registry.fearGreedIndex (by decide +kernel) rfl Catalog.fearGreedIndexTable _ _ (by decide +kernel)
    timeKey?_fearGreedIndex _ (validScoreAt_mem hok (.inl rfl) (by decide +kernel)) _
    (validScoreAt_mem hok (.inr rfl) (by decide +kernel)) rfl rfl hnoon hnoon
    (fun k hk hne => absurd (List.mem_singleton.1 hk) hne)
  have hsame := hiff.1 (by decide +kernel)
  exact absurd hsame (by decide +kernel)

end Attempt

end FeedLedger
