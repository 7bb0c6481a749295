import FeedLedger.Proofs.Projected

namespace FeedLedger

namespace Schema

variable {s : Schema} {column : String}

/-- The field a column is filled from: the last one that declares it. -/
def fieldOf? (s : Schema) (column : String) : Option Field := s.fields.reverse.find? (·.column = column)

theorem fieldOf?_mem {f : Field} (h : s.fieldOf? column = some f) : f ∈ s.fields ∧ f.column = column := by
  have hmem := List.mem_of_find?_eq_some h
  have hcolumn := List.find?_some h
  exact ⟨List.mem_reverse.1 hmem, of_decide_eq_true hcolumn⟩

theorem exists_fieldOf? {f : Field} (hf : f ∈ s.fields) : ∃ g, s.fieldOf? f.column = some g := by
  have hfound : (s.fieldOf? f.column).isSome := by
    rw [fieldOf?, List.find?_isSome]
    exact ⟨f, List.mem_reverse.2 hf, decide_eq_true rfl⟩
  exact Option.isSome_iff_exists.1 hfound

end Schema

/-- The value a level has under a column of levels. -/
def BookLevel.cell? (side : BookSide) (level : BookLevel) (column : String) : Option Value :=
  if column = "side" then some (.text side.tag)
  else if column = "price" then some (.decimal (.finite level.price))
  else if column = "size" then some (.decimal (.finite level.size))
  else none

namespace BookLevel

variable {side : BookSide} {level : BookLevel} {column : String}

theorem cell?_isSome : (level.cell? side column).isSome ↔ column ∈ Schema.levelColumns := by
  unfold cell?
  by_cases hside : column = "side"
  · simp [hside, Schema.levelColumns]
  by_cases hprice : column = "price"
  · simp [hprice, Schema.levelColumns]
  by_cases hsize : column = "size"
  · simp [hsize, Schema.levelColumns]
  · simp [hside, hprice, hsize, Schema.levelColumns]

theorem isNull_cell? {x : Value} (h : level.cell? side column = some x) : x.isNull = false := by
  unfold cell? at h
  split at h
  · cases h; rfl
  split at h
  · cases h; rfl
  split at h
  · cases h; rfl
  · cases h

end BookLevel

namespace Record

variable {r r' : Record} {s : Schema} {column : String}

theorem get?_fieldValues (r : Record) (s : Schema) (column : String) :
    Keyed.get? column (r.fieldValues s) = (s.fieldOf? column).map r.fieldValue := by
  rw [fieldValues, Keyed.get?_ofPairs, ← List.map_reverse]
  exact Keyed.get?_map Field.column r.fieldValue column s.fields.reverse

theorem fieldValues_congr (h : ∀ f ∈ s.fields, r.value f.key = r'.value f.key) :
    r.fieldValues s = r'.fieldValues s ∧ r.missingKeys s = r'.missingKeys s := by
  have hvalue : ∀ f ∈ s.fields, r.fieldValue f = r'.fieldValue f := by
    intro f hf
    rw [fieldValue, fieldValue, h f hf]
  constructor
  · have hpairs : (s.fields.map fun f => (f.column, r.fieldValue f)) =
        s.fields.map fun f => (f.column, r'.fieldValue f) := by
      apply List.map_congr_left
      intro f hf
      rw [hvalue f hf]
    rw [fieldValues, fieldValues, hpairs]
  · have hlacking : (s.fields.filter fun f => f.required && (r.fieldValue f).isNull) =
        s.fields.filter fun f => f.required && (r'.fieldValue f).isNull := by
      apply List.filter_congr
      intro f hf
      rw [hvalue f hf]
    rw [missingKeys, missingKeys, hlacking]

/-- The levels a record has rows of: those of its book, bids before asks, or none for its one row of scalars. -/
def levels (r : Record) (s : Schema) : List (Option (BookSide × BookLevel)) :=
  match s.expansion with
  | .scalar => [none]
  | .bookLevels =>
    (BookLevel.ofSide (r.value BookSide.bid.key)).map (fun level => some (.bid, level)) ++
      (BookLevel.ofSide (r.value BookSide.ask.key)).map (fun level => some (.ask, level))

theorem isSome_of_mem_levels {level? : Option (BookSide × BookLevel)} (h : level? ∈ r.levels s) :
    level?.isSome ↔ s.expansion = .bookLevels := by
  unfold levels at h
  split at h
  · rename_i hscalar
    rw [List.mem_singleton.1 h, hscalar]
    decide
  · rename_i hbook
    have hsome : level?.isSome := by
      rcases List.mem_append.1 h with h | h
      · obtain ⟨level, -, rfl⟩ := List.mem_map.1 h
        rfl
      · obtain ⟨level, -, rfl⟩ := List.mem_map.1 h
        rfl
    exact ⟨fun _ => hbook, fun _ => hsome⟩

/-- The cell of a column in the row of a level or, where there is none, in the row of scalars. -/
def cell? (r : Record) (s : Schema) (level? : Option (BookSide × BookLevel)) (column : String) : Option Value :=
  (level?.bind fun l => l.2.cell? l.1 column).or ((s.fieldOf? column).map r.fieldValue)

theorem cell?_isSome {level? : Option (BookSide × BookLevel)} (hl : level?.isSome ↔ s.expansion = .bookLevels)
    (hc : column ∈ s.columns) : ∃ x, r.cell? s level? column = some x := by
  rw [cell?, ← Option.isSome_iff_exists, Option.isSome_or, Bool.or_eq_true_iff]
  rcases Schema.mem_columns hc with ⟨f, hf, rfl⟩ | ⟨hbook, hlevel⟩
  · obtain ⟨g, hg⟩ := Schema.exists_fieldOf? hf
    exact .inr (by rw [hg]; rfl)
  · obtain ⟨l, rfl⟩ := Option.isSome_iff_exists.1 (hl.2 hbook)
    exact .inl (BookLevel.cell?_isSome.2 hlevel)

theorem get?_levelValues_eq (r : Record) (s : Schema) (side : BookSide) (level : BookLevel) (column : String) :
    Keyed.get? column (ValidRecord.levelValues ⟨s, r.fieldValues s, r⟩ side level) =
      r.cell? s (some (side, level)) column := by
  simp only [ValidRecord.levelValues, Keyed.get?_put, get?_fieldValues, cell?, Option.bind_some, BookLevel.cell?]
  by_cases hsize : column = "size"
  · simp [hsize]
  by_cases hprice : column = "price"
  · simp [hprice]
  by_cases hside : column = "side"
  · simp [hside]
  · simp [hsize, hprice, hside]

/-- The rows of a valid record, cell by cell. -/
theorem rows_of_validate {v : ValidRecord} (hv : r.validate (some s) = .ok v) :
    v.rows = (r.levels s).map fun level? => s.columns.map fun c => (r.cell? s level? c).getD .null := by
  obtain ⟨-, rfl⟩ := validate_eq_ok_iff.1 hv
  have hside : ∀ side : BookSide, ValidRecord.sideRows ⟨s, r.fieldValues s, r⟩ side =
      (BookLevel.ofSide (r.value side.key)).map fun level =>
        s.columns.map fun c => (r.cell? s (some (side, level)) c).getD .null := by
    intro side
    simp only [ValidRecord.sideRows, ValidRecord.rowOf, get?_levelValues_eq]
  cases hs : s.expansion with
  | scalar =>
    simp only [ValidRecord.rows, levels, hs, ValidRecord.rowOf, get?_fieldValues, cell?, Option.bind_none,
      Option.none_or, List.map_cons, List.map_nil]
  | bookLevels =>
    simp only [ValidRecord.rows, levels, hs, hside, List.map_append, List.map_map, Function.comp_def]

theorem mem_rows_of_validate {v : ValidRecord} (hv : r.validate (some s) = .ok v) {row : List Value}
    (hrow : row ∈ v.rows) :
    ∃ level?, (level?.isSome ↔ s.expansion = .bookLevels) ∧
      row = s.columns.map fun c => (r.cell? s level? c).getD .null := by
  rw [rows_of_validate hv] at hrow
  obtain ⟨level?, hl, heq⟩ := List.mem_map.1 hrow
  exact ⟨level?, isSome_of_mem_levels hl, heq.symm⟩

theorem cell?_congr (h : ∀ f ∈ s.fields, r.value f.key = r'.value f.key) (level? : Option (BookSide × BookLevel)) :
    r.cell? s level? column = r'.cell? s level? column := by
  cases hf : s.fieldOf? column with
  | none => simp only [cell?, hf, Option.map_none]
  | some f =>
    have hvalue := h f (Schema.fieldOf?_mem hf).1
    simp only [cell?, hf, Option.map_some, fieldValue, hvalue]

theorem levels_congr (h : s.expansion = .bookLevels → r.value "bids" = r'.value "bids" ∧ r.value "asks" = r'.value "asks") :
    r.levels s = r'.levels s := by
  cases hs : s.expansion with
  | scalar => simp only [levels, hs]
  | bookLevels =>
    obtain ⟨hbids, hasks⟩ := h hs
    simp only [levels, hs, BookSide.key, hbids, hasks]

/-- What a validated record shows depends on the values its fields read and, for a book, on its two sides. -/
theorem validate_congr (h : ∀ f ∈ s.fields, r.value f.key = r'.value f.key)
    (hsides : s.expansion = .bookLevels → r.value "bids" = r'.value "bids" ∧ r.value "asks" = r'.value "asks") :
    (r.validate (some s)).map (fun v => (v.values, v.rows)) =
      (r'.validate (some s)).map fun v => (v.values, v.rows) := by
  obtain ⟨hvalues, hmissing⟩ := fieldValues_congr h
  by_cases hr : r.missingKeys s = []
  · have hv : r.validate (some s) = .ok ⟨s, r.fieldValues s, r⟩ := validate_eq_ok_iff.2 ⟨hr, rfl⟩
    have hv' : r'.validate (some s) = .ok ⟨s, r'.fieldValues s, r'⟩ := validate_eq_ok_iff.2 ⟨hmissing ▸ hr, rfl⟩
    have hrows : (⟨s, r.fieldValues s, r⟩ : ValidRecord).rows = (⟨s, r'.fieldValues s, r'⟩ : ValidRecord).rows := by
      rw [rows_of_validate hv, rows_of_validate hv', levels_congr hsides]
      simp only [cell?_congr h]
    rw [hv, hv', Except.map, Except.map, hrows, hvalues]
  · have hm : r.validate (some s) = .error ⟨s.table, r.missingKeys s, .missingRequiredFields⟩ :=
      validate_eq_error_iff.2 ⟨hr, rfl⟩
    have hm' : r'.validate (some s) = .error ⟨s.table, r.missingKeys s, .missingRequiredFields⟩ := by
      rw [hmissing] at hr ⊢
      exact validate_eq_error_iff.2 ⟨hr, rfl⟩
    rw [hm, hm']

theorem isNull_fieldValue_of_required (h : r.missingKeys s = []) {f : Field} (hf : f ∈ s.fields)
    (hrequired : f.required = true) : (r.fieldValue f).isNull = false := by
  have hnone := List.filter_eq_nil_iff.1 (List.map_eq_nil_iff.1 h) f hf
  simpa [hrequired] using hnone

theorem isNull_cell?_iff {level? : Option (BookSide × BookLevel)}
    (hl : level?.isSome ↔ s.expansion = .bookLevels) {x : Value} (hx : r.cell? s level? column = some x) :
    x.isNull = true ↔ ¬(s.expansion = .bookLevels ∧ column ∈ Schema.levelColumns) ∧
      ∃ f, s.fieldOf? column = some f ∧ (r.fieldValue f).isNull = true := by
  rw [cell?] at hx
  cases hown : level?.bind fun l => l.2.cell? l.1 column with
  | some y =>
    obtain ⟨l, rfl, hcell⟩ := Option.bind_eq_some_iff.1 hown
    have hbook := hl.1 rfl
    have hcolumn := BookLevel.cell?_isSome.1 (Option.isSome_iff_exists.2 ⟨y, hcell⟩)
    rw [hown, Option.some_or] at hx
    cases hx
    simp [BookLevel.isNull_cell? hcell, hbook, hcolumn]
  | none =>
    have hapart : ¬(s.expansion = .bookLevels ∧ column ∈ Schema.levelColumns) := by
      rintro ⟨hbook, hcolumn⟩
      obtain ⟨l, rfl⟩ := Option.isSome_iff_exists.1 (hl.2 hbook)
      have hsome : (l.2.cell? l.1 column).isSome := BookLevel.cell?_isSome.2 hcolumn
      rw [Option.bind_some] at hown
      rw [hown] at hsome
      cases hsome
    rw [hown, Option.none_or] at hx
    obtain ⟨f, hf, rfl⟩ := Option.map_eq_some_iff.1 hx
    constructor
    · exact fun hnull => ⟨hapart, f, hf, hnull⟩
    · rintro ⟨-, g, hg, hnull⟩
      rw [hf] at hg
      cases hg
      exact hnull

/-- A record is valid if no required field is without a value. A cell of its rows is then null only where the last field
of the column is optional and has none, and shows no level. A malformed record names the keys of the required fields
without a value. Nothing else that a record carries has a bearing on this. -/
theorem validate_by_required_fields (r : Record) (s : Schema) :
    (∀ v, r.validate (some s) = .ok v →
      (∀ f ∈ s.fields, f.required = true → (r.fieldValue f).isNull = false) ∧
      ∀ row ∈ v.rows, List.Forall₂ (fun column (cell : Value) => cell.isNull = true ↔
        ¬(s.expansion = .bookLevels ∧ column ∈ Schema.levelColumns) ∧
          ∃ f, s.fieldOf? column = some f ∧ f.required = false ∧ (r.fieldValue f).isNull = true) s.columns row) ∧
    (∀ m, r.validate (some s) = .error m →
      m.missing = ((s.fields.filter (·.required)).filter fun f => (r.fieldValue f).isNull).map (·.key) ∧
        m.missing ≠ []) ∧
    ∀ r' : Record, (∀ f ∈ s.fields, r.value f.key = r'.value f.key) →
      (s.expansion = .bookLevels → r.value "bids" = r'.value "bids" ∧ r.value "asks" = r'.value "asks") →
      (r.validate (some s)).map (fun v => (v.values, v.rows)) =
        (r'.validate (some s)).map fun v => (v.values, v.rows) := by
  refine ⟨?valid, ?malformed, ?elsewhere⟩
  case valid =>
    intro v hv
    have hr := (validate_eq_ok_iff.1 hv).1
    have hrequired : ∀ f ∈ s.fields, f.required = true → (r.fieldValue f).isNull = false :=
      fun f hf => isNull_fieldValue_of_required hr hf
    refine ⟨hrequired, ?_⟩
    intro row hrow
    obtain ⟨level?, hl, rfl⟩ := mem_rows_of_validate hv hrow
    rw [List.forall₂_map_right_iff, List.forall₂_same]
    intro column hc
    obtain ⟨x, hx⟩ := cell?_isSome hl hc
    rw [hx, Option.getD_some, isNull_cell?_iff hl hx]
    have hoptional : ∀ f, s.fieldOf? column = some f → (r.fieldValue f).isNull = true → f.required = false := by
      intro f hf hnull
      by_contra hne
      rw [hrequired f (Schema.fieldOf?_mem hf).1 (eq_true_of_ne_false hne)] at hnull
      cases hnull
    constructor
    · rintro ⟨hapart, f, hf, hnull⟩
      exact ⟨hapart, f, hf, hoptional f hf hnull, hnull⟩
    · rintro ⟨hapart, f, hf, -, hnull⟩
      exact ⟨hapart, f, hf, hnull⟩
  case malformed =>
    intro m hm
    obtain ⟨hr, rfl⟩ := validate_eq_error_iff.1 hm
    have hkeys : r.missingKeys s =
        ((s.fields.filter (·.required)).filter fun f => (r.fieldValue f).isNull).map (·.key) := by
      rw [missingKeys, List.filter_filter]
      congr 2
      funext f
      exact Bool.and_comm _ _
    exact ⟨hkeys, hr⟩
  case elsewhere => exact fun r' h hsides => validate_congr h hsides

/-- Two fields fill one column, the first of them required. -/
def sharedColumn : Schema where
  kind := .ticker
  table := "t"
  fields := [⟨"a", .string, true, some "x"⟩, ⟨"a", .string, false, some "y"⟩, ⟨"b", .integer, true, none⟩]
  policy := .ignore
  conflictKeys := []
  expansion := .scalar
  syntheticKey := false
  touchUpdated := false

theorem validate_by_required_fields_with_a_shared_column :
    let full : Record := ⟨"t", [("x", .text "v"), ("y", .int 5), ("b", .text "7")]⟩
    let more : Record := ⟨"u", [("b", .text "7"), ("bids", .list []), ("x", .text "v"), ("y", .int 5)]⟩
    let lacking : Record := ⟨"t", [("y", .text "w"), ("b", .text "?")]⟩
    ∃ v m, full.validate (some sharedColumn) = .ok v ∧ lacking.validate (some sharedColumn) = .error m ∧
      (∀ f ∈ sharedColumn.fields, f.required = true → (full.fieldValue f).isNull = false) ∧
      v.rows = [[.text "5", .text "5", .int 7]] ∧ m.missing = ["x", "b"] ∧
      (full.validate (some sharedColumn)).map (fun v => (v.values, v.rows)) =
        (more.validate (some sharedColumn)).map fun v => (v.values, v.rows) := by
  intro full more lacking
  have hv : full.validate (some sharedColumn) = .ok ⟨sharedColumn, full.fieldValues sharedColumn, full⟩ :=
    validate_eq_ok_iff.2 ⟨by decide +kernel, rfl⟩
  have hm : lacking.validate (some sharedColumn) = .error ⟨"t", ["x", "b"], .missingRequiredFields⟩ :=
    validate_eq_error_iff.2 ⟨by decide +kernel, by decide +kernel⟩
  have hsame : ∀ f ∈ sharedColumn.fields, full.value f.key = more.value f.key := by
    simp only [sharedColumn, List.forall_mem_cons]
    exact ⟨rfl, rfl, rfl, by simp⟩
  have hfull := validate_by_required_fields full sharedColumn
  have hlacking := validate_by_required_fields lacking sharedColumn
  refine ⟨_, _, hv, hm, (hfull.1 _ hv).1, rfl, (hlacking.2.1 _ hm).1, ?_⟩
  exact hfull.2.2 more hsame fun h => by cases h

/-- A required field of a valid record is not shown where a later optional field of its column has no value. -/
theorem optional_field_hides_required_one :
    let r : Record := ⟨"t", [("x", .text "v"), ("b", .int 7)]⟩
    ∃ v, r.validate (some sharedColumn) = .ok v ∧ v.rows = [[.null, .null, .int 7]] ∧
      ∃ f ∈ sharedColumn.fields, f.required = true ∧ f.column = "a" ∧ r.fieldValue f = .text "v" := by
  intro r
  refine ⟨⟨sharedColumn, r.fieldValues sharedColumn, r⟩, ?_, ?_, ?_⟩
  · exact validate_eq_ok_iff.2 ⟨by decide +kernel, rfl⟩
  · rfl
  · exact ⟨_, List.mem_cons_self, rfl, rfl, rfl⟩

end Record

end FeedLedger
