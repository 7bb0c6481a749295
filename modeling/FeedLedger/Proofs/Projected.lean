import FeedLedger.Proofs.Fitting
import FeedLedger.Proofs.Handed

namespace FeedLedger

/-- A column and a value that can be stored in it, integers of any size included. -/
def Table.Suits (t : Table) (p : String × Value) : Prop :=
  ∃ c, t.column? p.1 = some c ∧ (p.2.isNull = true ∧ c.nullable = true ∨ c.type.Suits p.2)

namespace Schema

variable {s : Schema} {t : Table} {conflict : Conflict}

theorem mem_columns {column : String} (h : column ∈ s.columns) :
    (∃ f ∈ s.fields, f.column = column) ∨ s.expansion = .bookLevels ∧ column ∈ levelColumns := by
  simp only [columns] at h
  split at h
  · exact .inl (List.mem_map.1 h)
  rename_i hs
  rcases List.mem_append.1 h with h | h
  · rcases List.mem_append.1 h with h | h
    · exact .inl (List.mem_map.1 (List.mem_filter.1 h).1)
    · exact .inr ⟨hs, h⟩
  · exact .inl (List.mem_map.1 (List.mem_filter.1 h).1)

theorem get?_fieldValues (hd : (s.fields.map (·.column)).Nodup) (r : Record) {f : Field} (hf : f ∈ s.fields) :
    Keyed.get? f.column (r.fieldValues s) = some (r.fieldValue f) := by
  have hkeys : (Keyed.keys (s.fields.map fun f => (f.column, r.fieldValue f))).Nodup := by
    simpa [Keyed.keys, Function.comp_def] using hd
  simp only [Record.fieldValues]
  rw [Keyed.ofPairs_eq_self hkeys]
  exact Keyed.get?_of_mem hkeys (List.mem_map_of_mem (f := fun f => (f.column, r.fieldValue f)) hf)

theorem Fits.suits_field (h : s.Fits t conflict) {r : Record} (hr : r.missingKeys s = []) {f : Field}
    (hf : f ∈ s.fields) : t.Suits (f.column, r.fieldValue f) := by
  obtain ⟨c, hc, htakes⟩ := (Option.any_eq_true _ _).1 (h.fields f hf)
  obtain ⟨htype, hneed⟩ := Bool.and_eq_true_iff.1 htakes
  refine ⟨c, hc, ?_⟩
  rcases ColumnType.suits_coerce htype (r.value f.key) with hnull | hsuits
  · rcases Bool.or_eq_true_iff.1 hneed with hrequired | hnullable
    · have hmem : f ∈ s.fields.filter fun f => f.required && (r.fieldValue f).isNull :=
        List.mem_filter.2 ⟨hf, by rw [hrequired]; exact hnull⟩
      simp only [Record.missingKeys] at hr
      rw [List.map_eq_nil_iff.1 hr] at hmem
      cases hmem
    · exact .inl ⟨hnull, hnullable⟩
  · exact .inr hsuits

end Schema

namespace Record

variable {r : Record} {s : Schema} {v : ValidRecord} {t : Table} {conflict : Conflict}

private theorem suits_rowOf {values : List (String × Value)}
    (h : ∀ c ∈ v.schema.columns, ∃ x, Keyed.get? c values = some x ∧ t.Suits (c, x)) :
    ∀ p ∈ v.schema.columns.zip (v.rowOf values), t.Suits p := by
  intro p hp
  simp only [ValidRecord.rowOf] at hp
  rw [Keyed.zip_map] at hp
  obtain ⟨c, hc, rfl⟩ := List.mem_map.1 hp
  obtain ⟨x, hx, hsuits⟩ := h c hc
  simp only [hx, Option.getD_some]
  exact hsuits

theorem suits_fieldValues (hf : s.Fits t conflict) (hr : r.missingKeys s = []) {f : Field} (hm : f ∈ s.fields) :
    ∃ x, Keyed.get? f.column (r.fieldValues s) = some x ∧ t.Suits (f.column, x) :=
  ⟨_, Schema.get?_fieldValues hf.distinct r hm, hf.suits_field hr hm⟩

/-- The values that a level adds suit the columns of levels. -/
theorem suits_levelColumns (hf : s.Fits t conflict) (hs : s.expansion = .bookLevels) (v : ValidRecord) (side : BookSide)
    (level : BookLevel) {c : String} (hc : c ∈ Schema.levelColumns) :
    ∃ x, Keyed.get? c (v.levelValues side level) = some x ∧ t.Suits (c, x) := by
  have hcolumn : ∀ q ∈ Schema.levelFields, ∃ col, t.column? q.1 = some col ∧ col.type.takes q.2 = true := by
    intro q hq
    exact (Option.any_eq_true _ _).1 ((hf.levels hs).1 q hq)
  simp only [ValidRecord.levelValues]
  simp only [Schema.levelColumns, List.mem_cons, List.not_mem_nil, or_false] at hc
  rcases hc with rfl | rfl | rfl
  · rw [Keyed.get?_put_ne (by decide), Keyed.get?_put_ne (by decide), Keyed.get?_put_self]
    obtain ⟨col, hcol, htakes⟩ := hcolumn ("side", .string) (by decide)
    exact ⟨_, rfl, col, hcol, .inr (ColumnType.suits_text _ htakes)⟩
  · rw [Keyed.get?_put_ne (by decide), Keyed.get?_put_self]
    obtain ⟨col, hcol, htakes⟩ := hcolumn ("price", .decimal) (by decide)
    exact ⟨_, rfl, col, hcol, .inr (ColumnType.suits_finite _ htakes)⟩
  · rw [Keyed.get?_put_self]
    obtain ⟨col, hcol, htakes⟩ := hcolumn ("size", .decimal) (by decide)
    exact ⟨_, rfl, col, hcol, .inr (ColumnType.suits_finite _ htakes)⟩

/-- Level columns are no fields, so that the record's own values stay. -/
theorem get?_levelValues (hf : s.Fits t conflict) (hs : s.expansion = .bookLevels) (v : ValidRecord) (side : BookSide)
    (level : BookLevel) {f : Field} (hm : f ∈ s.fields) :
    Keyed.get? f.column (v.levelValues side level) = Keyed.get? f.column v.values := by
  have hapart := (hf.levels hs).2 f hm
  simp only [Schema.levelColumns, List.mem_cons, List.not_mem_nil, or_false, not_or] at hapart
  obtain ⟨hside, hprice, hsize⟩ := hapart
  simp only [ValidRecord.levelValues]
  rw [Keyed.get?_put_ne hsize, Keyed.get?_put_ne hprice, Keyed.get?_put_ne hside]

theorem rows_cases {row : List Value} (h : row ∈ v.rows) :
    v.schema.expansion = .scalar ∧ row = v.rowOf v.values ∨
      v.schema.expansion = .bookLevels ∧ ∃ side level, row = v.rowOf (v.levelValues side level) := by
  simp only [ValidRecord.rows] at h
  split at h
  · rename_i hscalar
    exact .inl ⟨hscalar, List.mem_singleton.1 h⟩
  · rename_i hlevels
    rcases List.mem_append.1 h with h | h
    · obtain ⟨level, -, rfl⟩ := List.mem_map.1 h
      exact .inr ⟨hlevels, .bid, level, rfl⟩
    · obtain ⟨level, -, rfl⟩ := List.mem_map.1 h
      exact .inr ⟨hlevels, .ask, level, rfl⟩

/-- The values of a valid record's rows suit the columns. -/
theorem suits_of_mem_rows (hf : s.Fits t conflict) (hv : r.validate (some s) = .ok v) {row : List Value}
    (hrow : row ∈ v.rows) : ∀ p ∈ s.columns.zip row, t.Suits p := by
  obtain ⟨hr, rfl⟩ := validate_eq_ok_iff.1 hv
  rcases rows_cases hrow with ⟨hscalar, rfl⟩ | ⟨hlevels, side, level, rfl⟩
  · apply suits_rowOf (v := ⟨s, r.fieldValues s, r⟩)
    intro c hc
    rcases Schema.mem_columns hc with ⟨f, hm, rfl⟩ | ⟨hlevels, -⟩
    · exact suits_fieldValues hf hr hm
    · rw [hscalar] at hlevels
      cases hlevels
  · apply suits_rowOf (v := ⟨s, r.fieldValues s, r⟩)
    intro c hc
    rcases Schema.mem_columns hc with ⟨f, hm, rfl⟩ | ⟨-, hmem⟩
    · rw [get?_levelValues hf hlevels _ _ _ hm]
      exact suits_fieldValues hf hr hm
    · exact suits_levelColumns hf hlevels _ _ _ hmem

end Record

end FeedLedger
