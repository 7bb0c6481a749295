import FeedLedger.Proofs.Projected

namespace FeedLedger

/-- Whether an integer among parameters is beyond 64 bits. -/
def Params.Oversized (p : Params) : Prop := ∃ q ∈ p, ∃ n, q.2 = .int n ∧ ¬Binding.Fits n

namespace Table

/-- The columns of a table that parameters name, with what they make of them. -/
def bound (t : Table) (p : Params) : List (String × Binding) :=
  t.columns.filterMap fun c => (Keyed.get? c.name p).map fun v => (c.name, c.type.bind v)

theorem column?_of_mem {t : Table} (h : t.columnNames.Nodup) {c : Column} (hc : c ∈ t.columns) :
    t.column? c.name = some c := by
  have hnames : Keyed.keys (t.columns.map fun c => (c.name, c)) = t.columnNames := by
    simp [Keyed.keys, columnNames]
  have hget := Keyed.get?_of_mem (by rw [hnames]; exact h) (List.mem_map_of_mem (f := fun c => (c.name, c)) hc)
  have hfind := Keyed.get?_map (fun c : Column => c.name) (fun c => c) c.name t.columns
  simpa [column?] using hfind.symm.trans hget

theorem mem_of_column? {t : Table} {name : String} {c : Column} (h : t.column? name = some c) :
    c ∈ t.columns ∧ c.name = name :=
  ⟨List.mem_of_find?_eq_some h, by simpa using List.find?_some h⟩

theorem get?_bound (t : Table) (p : Params) (name : String) :
    Keyed.get? name (t.bound p) = (t.column? name).bind fun c => (Keyed.get? name p).map c.type.bind := by
  simp only [bound, column?]
  induction t.columns with
  | nil => rfl
  | cons c rest ih =>
    by_cases hc : c.name = name
    · subst hc
      cases hp : Keyed.get? c.name p with
      | none => simpa [hp, List.filterMap_cons] using ih
      | some v => simp [hp, Keyed.get?]
    · cases hp : Keyed.get? c.name p with
      | none => simpa [hp, List.filterMap_cons, hc] using ih
      | some v => simpa [hp, List.filterMap_cons, Keyed.get?, hc] using ih

end Table

namespace BoundInsert

theorem cells_cases {l : List (String × Binding)} (h : ∀ q ∈ l, (∃ c, q.2 = .cell c) ∨ q.2 = .tooLarge) :
    (∃ given, cells l = .ok given ∧ l = given.map fun q => (q.1, .cell q.2)) ∨
      (∃ q ∈ l, q.2 = .tooLarge) ∧ cells l = .error .integerTooLarge := by
  induction l with
  | nil => exact .inl ⟨[], rfl, rfl⟩
  | cons q rest ih =>
    obtain ⟨column, binding⟩ := q
    obtain ⟨hfirst, hlater⟩ := List.forall_mem_cons.1 h
    rcases hfirst with ⟨c, hc⟩ | hc
    · obtain rfl : binding = .cell c := hc
      rcases ih hlater with ⟨given, hg, hl⟩ | ⟨⟨q, hq, hlarge⟩, hg⟩
      · exact .inl ⟨(column, c) :: given, by rw [cells, hg]; rfl, by rw [List.map_cons, ← hl]⟩
      · exact .inr ⟨⟨q, List.mem_cons_of_mem _ hq, hlarge⟩, by rw [cells, hg]; rfl⟩
    · obtain rfl : binding = .tooLarge := hc
      exact .inr ⟨⟨_, List.mem_cons_self, rfl⟩, rfl⟩

end BoundInsert

namespace Schema

variable {s : Schema} {t : Table} {conflict : Conflict} {p : Params}

/-- Parameters for exactly the columns that are written, each suiting its column. -/
structure Takes (s : Schema) (t : Table) (p : Params) : Prop where
  keys : Keyed.keys p = s.writeColumns
  suits : ∀ q ∈ p, t.Suits q

theorem Fits.params_eq (h : s.Fits t conflict) (batch : String) (n : Nat) {row : List Value}
    (hl : row.length = s.columns.length) :
    Writer.params s batch n row =
      s.columns.zip row ++
        if s.syntheticKey then [(ingestKeyColumn, .text (IngestKey.key batch s.table (.int n)))] else [] := by
  have hkeys : Keyed.keys (s.columns.zip row) = s.columns := List.map_fst_zip (Nat.le_of_eq hl.symm)
  simp only [Writer.params]
  rw [Keyed.ofPairs_eq_self (by rw [hkeys]; exact h.ordered)]
  split
  · rename_i hs
    exact Keyed.put_of_not_mem (by rw [hkeys]; exact (h.ingestKey hs).2) _
  · rw [List.append_nil]

/-- The parameters of a row whose values suit the columns. -/
theorem Fits.takes_params (h : s.Fits t conflict) (batch : String) (n : Nat) {row : List Value}
    (hl : row.length = s.columns.length) (hrow : ∀ q ∈ s.columns.zip row, t.Suits q) :
    s.Takes t (Writer.params s batch n row) := by
  have hkeys : Keyed.keys (s.columns.zip row) = s.columns := List.map_fst_zip (Nat.le_of_eq hl.symm)
  rw [h.params_eq batch n hl]
  by_cases hs : s.syntheticKey = true
  · obtain ⟨c, hc, htakes⟩ := (Option.any_eq_true _ _).1 (h.ingestKey hs).1
    rw [if_pos hs]
    constructor
    · have happend : Keyed.keys (s.columns.zip row ++
          [(ingestKeyColumn, Value.text (IngestKey.key batch s.table (.int n)))]) =
          Keyed.keys (s.columns.zip row) ++ [ingestKeyColumn] := by simp [Keyed.keys]
      rw [writeColumns, if_pos hs, happend, hkeys]
    · intro q hq
      rcases List.mem_append.1 hq with hq | hq
      · exact hrow q hq
      · rw [List.mem_singleton.1 hq]
        refine ⟨c, hc, .inr ?_⟩
        cases htype : c.type <;> rw [htype] at htakes <;> first | exact trivial | exact Bool.noConfusion htakes
  · rw [if_neg hs, List.append_nil]
    constructor
    · rw [writeColumns, if_neg hs, hkeys]
    · exact hrow

theorem Takes.get?_isSome (hp : s.Takes t p) {column : String} :
    (Keyed.get? column p).isSome = true ↔ column ∈ s.writeColumns := by
  rw [← hp.keys, Keyed.mem_keys_iff]

/-- What a value becomes in its column. -/
theorem Takes.bind_cases (hp : s.Takes t p) {column : String} {v : Value} (hv : Keyed.get? column p = some v) :
    ∃ c, t.column? column = some c ∧
      ((∃ n, v = .int n ∧ ¬Binding.Fits n ∧ c.type.bind v = .tooLarge) ∨
        ∃ x, c.type.bind v = .cell x ∧ (x = .null → c.nullable = true) ∧ ∀ n, v = .int n → Binding.Fits n) := by
  obtain ⟨c, hc, hsuits⟩ := hp.suits _ (Keyed.mem_of_get? hv)
  refine ⟨c, hc, ?_⟩
  rcases hsuits with ⟨hnull, hnullable⟩ | hsuits
  · cases v with
    | null => exact .inr ⟨.null, ColumnType.bind_null _, fun _ => hnullable, by simp⟩
    | _ => cases hnull
  · rcases ColumnType.bind_suits hsuits with hlarge | ⟨x, hx, hne, hfits⟩
    · exact .inl hlarge
    · exact .inr ⟨x, hx, fun hnull => absurd hnull hne, hfits⟩

/-- Cells for exactly the columns that are written, with nulls only where there may be some. -/
def Gives (s : Schema) (t : Table) (given : List (String × Cell)) : Prop :=
  ∀ column c, t.column? column = some c →
    if column ∈ s.writeColumns then ∃ x, Keyed.get? column given = some x ∧ (x = .null → c.nullable = true)
    else Keyed.get? column given = none

theorem Fits.nodup_writeColumns (h : s.Fits t conflict) : s.writeColumns.Nodup := by
  simp only [writeColumns]
  split
  · rename_i hs
    refine List.nodup_append.2 ⟨h.ordered, by simp, ?_⟩
    intro c hc k hk
    rw [List.mem_singleton.1 hk]
    exact fun e => (h.ingestKey hs).2 (e ▸ hc)
  · exact h.ordered

/-- What is bound is the cell of a parameter, or a parameter that is oversized. -/
theorem Takes.mem_bound (h : s.Fits t conflict) (hp : s.Takes t p) {q : String × Binding} (hq : q ∈ t.bound p) :
    (p.Oversized ∧ q.2 = .tooLarge) ∨ ∃ x, q.2 = .cell x := by
  obtain ⟨c, hc, hq⟩ := List.mem_filterMap.1 hq
  obtain ⟨v, hv, rfl⟩ := Option.map_eq_some_iff.1 hq
  obtain ⟨c', hc', hcases⟩ := hp.bind_cases hv
  obtain rfl : c = c' := Option.some.inj ((Table.column?_of_mem h.columns hc).symm.trans hc')
  rcases hcases with ⟨n, hn, hfits, hlarge⟩ | ⟨x, hx, -⟩
  · exact .inl ⟨⟨_, Keyed.mem_of_get? hv, n, hn, hfits⟩, hlarge⟩
  · exact .inr ⟨x, hx⟩

/-- Cells that parameters have are for exactly the columns that are written, and no integer among them is oversized. -/
theorem Takes.gives (h : s.Fits t conflict) (hp : s.Takes t p) {given : List (String × Cell)}
    (hgiven : t.bound p = given.map fun q => (q.1, .cell q.2)) : ¬p.Oversized ∧ s.Gives t given := by
  have hget (column : String) (c : Column) (hc : t.column? column = some c) :
      (Keyed.get? column p).map c.type.bind = (Keyed.get? column given).map .cell := by
    have hb := Table.get?_bound t p column
    rw [hc, hgiven, Keyed.get?_mapValues fun _ x => Binding.cell x] at hb
    exact hb.symm
  have hcell (column : String) (c : Column) (v : Value) (hc : t.column? column = some c)
      (hv : Keyed.get? column p = some v) : ∃ x, Keyed.get? column given = some x ∧ c.type.bind v = .cell x ∧
        (x = .null → c.nullable = true) ∧ ∀ n, v = .int n → Binding.Fits n := by
    have hg := hget column c hc
    rw [hv, Option.map_some] at hg
    obtain ⟨x, hx, hbind⟩ := Option.map_eq_some_iff.1 hg.symm
    obtain ⟨c', hc', hcases⟩ := hp.bind_cases hv
    obtain rfl : c = c' := Option.some.inj (hc.symm.trans hc')
    rcases hcases with ⟨n, -, -, hlarge⟩ | ⟨y, hy, hnullable, hfits⟩
    · rw [hlarge] at hbind
      cases hbind
    · rw [hy] at hbind
      cases hbind
      exact ⟨x, hx, hy, hnullable, hfits⟩
  constructor
  · rintro ⟨q, hq, n, hn, hlarge⟩
    have hv := Keyed.get?_of_mem (by rw [hp.keys]; exact h.nodup_writeColumns) hq
    obtain ⟨c, hc, -⟩ := hp.bind_cases hv
    obtain ⟨x, -, -, -, hfits⟩ := hcell q.1 c q.2 hc hv
    exact hlarge (hfits n hn)
  · intro column c hc
    split
    · rename_i hw
      obtain ⟨v, hv⟩ := Option.isSome_iff_exists.1 (hp.get?_isSome.2 hw)
      obtain ⟨x, hx, -, hnullable, -⟩ := hcell column c v hc hv
      exact ⟨x, hx, hnullable⟩
    · rename_i hw
      have hnone : Keyed.get? column p = none := by
        rw [Option.eq_none_iff_forall_ne_some]
        intro v hv
        exact hw (hp.get?_isSome.1 (by rw [hv]; rfl))
      have hg := hget column c hc
      rw [hnone] at hg
      exact Option.map_eq_none_iff.1 hg.symm

/-- Parameters have cells unless one is oversized, which the driver refuses. -/
theorem Takes.cells_bound (h : s.Fits t conflict) (hp : s.Takes t p) :
    p.Oversized ∧ BoundInsert.cells (t.bound p) = .error .integerTooLarge ∨
      ¬p.Oversized ∧ ∃ given, BoundInsert.cells (t.bound p) = .ok given ∧
        t.bound p = (given.map fun q => (q.1, .cell q.2)) ∧ s.Gives t given := by
  have hbound : ∀ q ∈ t.bound p, (∃ c, q.2 = .cell c) ∨ q.2 = .tooLarge := by
    intro q hq
    rcases hp.mem_bound h hq with ⟨-, hlarge⟩ | hcell
    · exact .inr hlarge
    · exact .inl hcell
  rcases BoundInsert.cells_cases hbound with ⟨given, hcells, hgiven⟩ | ⟨⟨q, hq, hlarge⟩, hcells⟩
  · obtain ⟨hsmall, hgives⟩ := hp.gives h hgiven
    exact .inr ⟨hsmall, given, hcells, hgiven, hgives⟩
  · rcases hp.mem_bound h hq with ⟨hover, -⟩ | ⟨x, hx⟩
    · exact .inl ⟨hover, hcells⟩
    · rw [hlarge] at hx
      cases hx

/-- Handing such parameters to the statement of the schema binds the columns they name. -/
theorem Takes.bindRow_eq (h : s.Fits t conflict) (hp : s.Takes t p) {i : Insert} (hi : i.table = t) :
    i.bindRow (t.columnNames.filter (s.writeColumns.contains ·)) p = t.bound p := by
  have hcols : ∀ cols : List Column, (∀ c ∈ cols, c ∈ t.columns) →
      ((cols.map (·.name)).filter (s.writeColumns.contains ·)).map (fun name => (name, i.bindColumn p name)) =
        cols.filterMap fun c => (Keyed.get? c.name p).map fun v => (c.name, c.type.bind v) := by
    intro cols hsub
    induction cols with
    | nil => rfl
    | cons c rest ih =>
      have hc := Table.column?_of_mem h.columns (hsub c List.mem_cons_self)
      have hr := ih fun d hd => hsub d (List.mem_cons_of_mem _ hd)
      rw [List.map_cons]
      by_cases hw : c.name ∈ s.writeColumns
      · obtain ⟨v, hv⟩ := Option.isSome_iff_exists.1 (hp.get?_isSome.2 hw)
        rw [List.filter_cons_of_pos (by simpa using hw), List.map_cons, hr, List.filterMap_cons]
        simp [Insert.bindColumn, hi, hc, hv]
      · have hnone : Keyed.get? c.name p = none := by
          rw [Option.eq_none_iff_forall_ne_some]
          intro v hv
          exact hw (hp.get?_isSome.1 (by rw [hv]; rfl))
        rw [List.filter_cons_of_neg (by simpa using hw), hr, List.filterMap_cons]
        simp [hnone]
  exact hcols t.columns fun c hc => hc

end Schema

end FeedLedger
