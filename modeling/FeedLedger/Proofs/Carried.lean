import FeedLedger.Proofs.Execution

namespace FeedLedger

/-- Rows of equal cells in some columns. -/
def Row.Alike (columns : List String) (r q : Row) : Prop := ∀ c ∈ columns, q.cell c = r.cell c

/-- A row with the cells that parameters have in some columns. -/
def Table.Carries (t : Table) (columns : List String) (p : Params) (r : Row) : Prop :=
  ∀ column ∈ columns, ∃ c v, t.column? column = some c ∧ Keyed.get? column p = some v ∧
    c.type.bind v = .cell (r.cell column)

theorem Table.carries_iff {t : Table} {columns : List String} {p : Params} {r : Row} :
    t.Carries columns p r ↔ ∀ column ∈ columns, Keyed.get? column (t.bound p) = some (.cell (r.cell column)) := by
  refine forall_congr' fun column => forall_congr' fun _ => ?_
  simp only [get?_bound, Option.bind_eq_some_iff, Option.map_eq_some_iff, exists_and_left]

instance (t : Table) (columns : List String) (p : Params) (r : Row) : Decidable (t.Carries columns p r) :=
  decidable_of_iff' _ Table.carries_iff

theorem Table.Carries.alike {t : Table} {columns : List String} {p : Params} {r q : Row} (h : t.Carries columns p r)
    (ha : Row.Alike columns r q) : t.Carries columns p q := by
  intro column hcolumn
  obtain ⟨c, v, hc, hv, hbind⟩ := h column hcolumn
  refine ⟨c, v, hc, hv, ?_⟩
  rw [hbind, ha column hcolumn]

theorem Table.Carries.mono {t : Table} {columns some : List String} {p : Params} {r : Row} (h : t.Carries columns p r)
    (hs : some ⊆ columns) : t.Carries some p r :=
  fun column hcolumn => h column (hs hcolumn)

namespace Schema

/-- The columns that tell a row from others: its natural key, or all that is projected where there is none. -/
def identity (s : Schema) : List String := if s.syntheticKey then s.columns else s.conflictKeys

variable {s : Schema} {t : Table} {conflict : Conflict} {given : List (String × Cell)} {rows rows' : List Row}
  {p : Params} {ps : List Params}

theorem Takes.carries_newRow (h : s.Fits t conflict) (hp : s.Takes t p) (hc : BoundInsert.cells (t.bound p) = .ok given)
    (rows : List Row) : t.Carries s.writeColumns p (t.newRow given rows) := by
  intro column hw
  obtain ⟨v, hv⟩ := Option.isSome_iff_exists.1 (hp.get?_isSome.2 hw)
  obtain ⟨c, hcolumn, -⟩ := hp.bind_cases hv
  rcases hp.cells_bound h with ⟨-, he⟩ | ⟨-, given', he, hbound, hgives⟩
  · rw [hc] at he
    cases he
  rw [hc] at he
  cases he
  have hb := Table.get?_bound t p column
  rw [hbound, Keyed.get?_mapValues fun _ x => Binding.cell x, hcolumn, hv,
    (h.cell_written hgives rows hcolumn hw).1] at hb
  exact ⟨c, v, hcolumn, hv, (Option.some.inj hb).symm⟩

/-- A stored row stays to be found when another one is settled. -/
theorem Fits.settle_retains (h : s.Fits t conflict) (given : List (String × Cell)) {r : Row} (hr : r ∈ rows) :
    ∃ q ∈ t.settle s.policy rows given, Row.Alike s.identity r q := by
  simp only [Table.settle]
  split
  · split
    · exact ⟨r, hr, fun _ _ => rfl⟩
    · rename_i hpolicy
      refine ⟨_, List.mem_map_of_mem hr, fun c hc => ?_⟩
      have hnatural : ¬s.syntheticKey = true := by
        intro hs
        rw [(h.appends hs).1] at hpolicy
        cases hpolicy
      rw [identity, if_neg hnatural] at hc
      split
      · rename_i htaken
        rw [h.taken_eq] at htaken
        rw [Row.cell_under (h.mem_keys_newRow hc), if_neg (ne_of_mem_of_not_mem hc h.id_not_key)]
        exact ((Row.agrees_iff.1 htaken) c hc).1.symm
      · rfl
  · exact ⟨r, List.mem_append_left _ hr, fun _ _ => rfl⟩

/-- A row that is settled is found under its key. -/
theorem Fits.settle_finds (h : s.Fits t conflict) (given : List (String × Cell)) (rows : List Row) :
    ∃ q ∈ t.settle s.policy rows given, Row.Alike s.conflictKeys (t.newRow given rows) q := by
  simp only [Table.settle]
  split
  · rename_i hany
    obtain ⟨r, hr, htaken⟩ := List.any_eq_true.1 hany
    have hagrees := htaken
    rw [h.taken_eq] at hagrees
    split
    · exact ⟨r, hr, fun c hc => ((Row.agrees_iff.1 hagrees) c hc).1⟩
    · refine ⟨_, List.mem_map_of_mem hr, fun c hc => ?_⟩
      rw [if_pos htaken, Row.cell_under (h.mem_keys_newRow hc), if_neg (ne_of_mem_of_not_mem hc h.id_not_key)]
  · exact ⟨_, List.mem_append_right _ List.mem_cons_self, fun _ _ => rfl⟩

theorem mem_settle (hs : s.policy = .ignore) {q : Row} (hq : q ∈ t.settle s.policy rows given) :
    q ∈ rows ∨ q = t.newRow given rows := by
  simp only [Table.settle] at hq
  rw [hs] at hq
  simp only at hq
  split at hq
  · exact .inl hq
  · rcases List.mem_append.1 hq with hq | hq
    · exact .inl hq
    · exact .inr (List.mem_singleton.1 hq)

theorem Fits.settle_appends (h : s.Fits t conflict) (hs : s.syntheticKey = true)
    (hfree : ∀ r ∈ rows, r.cell ingestKeyColumn ≠ (t.newRow given rows).cell ingestKeyColumn) :
    t.settle s.policy rows given = rows ++ [t.newRow given rows] := by
  simp only [Table.settle]
  rw [if_neg]
  intro hany
  obtain ⟨r, hr, htaken⟩ := List.any_eq_true.1 hany
  rw [h.taken_eq, (h.appends hs).2] at htaken
  exact hfree r hr ((Row.agrees_iff.1 htaken) _ List.mem_cons_self).1

theorem Fits.settleAll_retains (h : s.Fits t conflict) (he : t.settleAll s.policy ps rows = .ok rows') {r : Row}
    (hr : r ∈ rows) : ∃ q ∈ rows', Row.Alike s.identity r q := by
  induction ps generalizing rows r with
  | nil =>
    cases he
    exact ⟨r, hr, fun _ _ => rfl⟩
  | cons p rest ih =>
    rw [Table.settleAll] at he
    split at he
    · cases he
    · rename_i given hc
      obtain ⟨q, hq, halike⟩ := h.settle_retains given hr
      obtain ⟨x, hx, hx'⟩ := ih he hq
      exact ⟨x, hx, fun c hc => (hx' c hc).trans (halike c hc)⟩

theorem Fits.settleAll_finds (h : s.Fits t conflict) (hs : ¬s.syntheticKey = true) (hp : ∀ p ∈ ps, s.Takes t p)
    (he : t.settleAll s.policy ps rows = .ok rows') {p : Params} (hm : p ∈ ps) :
    ∃ q ∈ rows', t.Carries s.identity p q := by
  have hidentity : s.identity = s.conflictKeys := if_neg hs
  induction ps generalizing rows with
  | nil => cases hm
  | cons first rest ih =>
    obtain ⟨hfirst, hlater⟩ := List.forall_mem_cons.1 hp
    rw [Table.settleAll] at he
    split at he
    · cases he
    rename_i given hc
    rcases List.mem_cons.1 hm with rfl | hm
    · obtain ⟨q, hq, halike⟩ := h.settle_finds given rows
      obtain ⟨x, hx, hx'⟩ := h.settleAll_retains he hq
      rw [hidentity] at hx' ⊢
      have hcarries : t.Carries s.conflictKeys p (t.newRow given rows) :=
        (hfirst.carries_newRow h hc rows).mono fun k hk => (h.keyed k hk).1
      exact ⟨x, hx, (hcarries.alike halike).alike hx'⟩
    · exact ih hlater he hm

/-- Where taken keys are skipped, a row is an old one or made of parameters that are settled. -/
theorem Fits.mem_settleAll (h : s.Fits t conflict) (hs : s.policy = .ignore) (hp : ∀ p ∈ ps, s.Takes t p)
    (he : t.settleAll s.policy ps rows = .ok rows') {q : Row} (hq : q ∈ rows') :
    q ∈ rows ∨ ∃ p ∈ ps, t.Carries s.writeColumns p q := by
  induction ps generalizing rows with
  | nil =>
    cases he
    exact .inl hq
  | cons p rest ih =>
    obtain ⟨hfirst, hlater⟩ := List.forall_mem_cons.1 hp
    rw [Table.settleAll] at he
    split at he
    · cases he
    rename_i given hc
    rcases ih hlater he with hold | ⟨x, hx, hcarries⟩
    · rcases mem_settle hs hold with hold | rfl
      · exact .inl hold
      · exact .inr ⟨p, List.mem_cons_self, hfirst.carries_newRow h hc rows⟩
    · exact .inr ⟨x, List.mem_cons_of_mem _ hx, hcarries⟩

theorem Fits.cell_ingestKey (h : s.Fits t conflict) (hs : s.syntheticKey = true) {key : String}
    (hk : Keyed.get? ingestKeyColumn p = some (.text key)) {r : Row} (hr : t.Carries [ingestKeyColumn] p r) :
    r.cell ingestKeyColumn = .text key := by
  obtain ⟨c, v, hc, hv, hbind⟩ := hr _ List.mem_cons_self
  obtain ⟨c', hc', htakes⟩ := (Option.any_eq_true _ _).1 (h.ingestKey hs).1
  obtain rfl : c = c' := Option.some.inj (hc.symm.trans hc')
  obtain rfl : v = .text key := Option.some.inj (hv.symm.trans hk)
  have htext : c.type.bind (.text key) = .cell (.text key) := by
    cases htype : c.type <;> rw [htype] at htakes <;> first | rfl | exact Bool.noConfusion htakes
  rw [htext] at hbind
  exact (Binding.cell.inj hbind).symm

theorem ingestKey_subset (hs : s.syntheticKey = true) : [ingestKeyColumn] ⊆ s.writeColumns := by
  rw [writeColumns, if_pos hs]
  exact List.subset_append_right _ _

/-- Rows under new ingest keys, no two of them the same, are added in their order, each with all its values. -/
theorem Fits.settleAll_appends (h : s.Fits t conflict) (hs : s.syntheticKey = true) (hp : ∀ p ∈ ps, s.Takes t p)
    (hkeyed : ∀ p ∈ ps, ∃ key, Keyed.get? ingestKeyColumn p = some (.text key))
    (hapart : ps.Pairwise fun p q => Keyed.get? ingestKeyColumn p ≠ Keyed.get? ingestKeyColumn q)
    (hfree : ∀ p ∈ ps, ∀ key, Keyed.get? ingestKeyColumn p = some (.text key) →
      ∀ r ∈ rows, r.cell ingestKeyColumn ≠ .text key)
    (he : t.settleAll s.policy ps rows = .ok rows') :
    ∃ added, rows' = rows ++ added ∧ List.Forall₂ (t.Carries s.writeColumns) ps added := by
  induction ps generalizing rows with
  | nil =>
    cases he
    exact ⟨[], (List.append_nil _).symm, .nil⟩
  | cons p rest ih =>
    obtain ⟨htakes, htakes'⟩ := List.forall_mem_cons.1 hp
    obtain ⟨⟨key, hkey⟩, hkeyed'⟩ := List.forall_mem_cons.1 hkeyed
    obtain ⟨hfree₁, hfree'⟩ := List.forall_mem_cons.1 hfree
    obtain ⟨hfirst, hapart'⟩ := List.pairwise_cons.1 hapart
    rw [Table.settleAll] at he
    split at he
    · cases he
    rename_i given hc
    have hnew := htakes.carries_newRow h hc rows
    have hcell : (t.newRow given rows).cell ingestKeyColumn = .text key :=
      h.cell_ingestKey hs hkey (hnew.mono (ingestKey_subset hs))
    have hfree₀ : ∀ r ∈ rows, r.cell ingestKeyColumn ≠ (t.newRow given rows).cell ingestKeyColumn := by
      rw [hcell]
      exact hfree₁ key hkey
    rw [h.settle_appends hs hfree₀] at he
    have hstill : ∀ q ∈ rest, ∀ other, Keyed.get? ingestKeyColumn q = some (.text other) →
        ∀ r ∈ rows ++ [t.newRow given rows], r.cell ingestKeyColumn ≠ .text other := by
      intro q hq other hother r hr
      rcases List.mem_append.1 hr with hr | hr
      · exact hfree' q hq other hother r hr
      · intro hsame
        rw [List.mem_singleton.1 hr, hcell] at hsame
        apply hfirst q hq
        rw [hkey, hother, Cell.text.inj hsame]
    obtain ⟨added, rfl, hadded⟩ := ih htakes' hkeyed' hapart' hstill he
    exact ⟨t.newRow given rows :: added, List.append_assoc .., .cons hnew hadded⟩

end Schema

end FeedLedger
