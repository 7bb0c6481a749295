import FeedLedger.Proofs.Refused
import FeedLedger.Proofs.Settling

namespace FeedLedger

namespace Table

/-- The rows of a table after rows of parameters are settled one after the other. -/
def settleAll (t : Table) (policy : ConflictPolicy) : List Params → List Row → Except Failure (List Row)
  | [], rows => .ok rows
  | p :: rest, rows =>
    match BoundInsert.cells (t.bound p) with
    | .error f => .error f
    | .ok given => t.settleAll policy rest (t.settle policy rows given)

theorem settleAll_append {t : Table} {policy : ConflictPolicy} {first : List Params} {rows rows' : List Row}
    (h : t.settleAll policy first rows = .ok rows') (rest : List Params) :
    t.settleAll policy (first ++ rest) rows = t.settleAll policy rest rows' := by
  induction first generalizing rows with
  | nil =>
    cases h
    rfl
  | cons p more ih =>
    rw [settleAll] at h
    rw [List.cons_append, settleAll]
    split at h
    · cases h
    · rename_i given hg
      exact ih h

end Table

namespace Schema

variable {s : Schema} {t : Table} {conflict : Conflict}

/-- Rows that can be settled are inserted by settling them. -/
theorem Fits.insertRows_eq (h : s.Fits t conflict) {ps : List Params} (hp : ∀ p ∈ ps, s.Takes t p) {rows : List Row}
    (hn : Row.Numbered rows) (hl : t.Lays rows) :
    t.insertRows (s.resolved conflict) rows (ps.map t.bound) = t.settleAll s.policy ps rows := by
  induction ps generalizing rows with
  | nil => rfl
  | cons p rest ih =>
    obtain ⟨hfirst, hlater⟩ := List.forall_mem_cons.1 hp
    rw [List.map_cons, Table.insertRows, Table.settleAll]
    rcases hfirst.cells_bound h with ⟨-, hc⟩ | ⟨-, given, hc, -, hg⟩
    · simp only [hc]
    · obtain ⟨hn', hl'⟩ := h.settle_keeps s.policy hg hn hl
      simp only [hc, h.insertRow_eq hg hn hl]
      exact ih hlater hn' hl'

theorem Fits.settleAll_keeps (h : s.Fits t conflict) {ps : List Params} (hp : ∀ p ∈ ps, s.Takes t p)
    {rows rows' : List Row} (hn : Row.Numbered rows) (hl : t.Lays rows)
    (hs : t.settleAll s.policy ps rows = .ok rows') : Row.Numbered rows' ∧ t.Lays rows' := by
  induction ps generalizing rows with
  | nil =>
    cases hs
    exact ⟨hn, hl⟩
  | cons p rest ih =>
    obtain ⟨hfirst, hlater⟩ := List.forall_mem_cons.1 hp
    rw [Table.settleAll] at hs
    rcases hfirst.cells_bound h with ⟨-, hc⟩ | ⟨-, given, hc, -, hg⟩
    · rw [hc] at hs
      cases hs
    · obtain ⟨hn', hl'⟩ := h.settle_keeps s.policy hg hn hl
      rw [hc] at hs
      exact ih hlater hn' hl' hs

/-- All rows are settled unless an integer among them is oversized. -/
theorem Fits.settleAll_cases (h : s.Fits t conflict) {ps : List Params} (hp : ∀ p ∈ ps, s.Takes t p) (rows : List Row) :
    (∃ p ∈ ps, p.Oversized) ∧ t.settleAll s.policy ps rows = .error .integerTooLarge ∨
      (∀ p ∈ ps, ¬p.Oversized) ∧ ∃ rows', t.settleAll s.policy ps rows = .ok rows' := by
  induction ps generalizing rows with
  | nil => exact .inr ⟨by simp, rows, rfl⟩
  | cons p rest ih =>
    obtain ⟨hfirst, hlater⟩ := List.forall_mem_cons.1 hp
    rw [Table.settleAll]
    rcases hfirst.cells_bound h with ⟨hlarge, hc⟩ | ⟨hsmall, given, hc, -, -⟩
    · rw [hc]
      exact .inl ⟨⟨p, List.mem_cons_self, hlarge⟩, rfl⟩
    · rw [hc]
      rcases ih hlater (t.settle s.policy rows given) with ⟨⟨q, hq, hlarge⟩, he⟩ | ⟨hall, rows', he⟩
      · exact .inl ⟨⟨q, List.mem_cons_of_mem _ hq, hlarge⟩, he⟩
      · exact .inr ⟨List.forall_mem_cons.2 ⟨hsmall, hall⟩, rows', he⟩

theorem Fits.mem_written (h : s.Fits t conflict) {k : String} (hk : k ∈ s.conflictKeys) :
    k ∈ t.columnNames.filter (s.writeColumns.contains ·) := by
  obtain ⟨hw, hcol⟩ := h.keyed k hk
  obtain ⟨c, hc, -⟩ := (Option.any_eq_true _ _).1 hcol
  obtain ⟨hm, rfl⟩ := Table.mem_of_column? hc
  exact List.mem_filter.2 ⟨List.mem_map_of_mem hm, by simpa using hw⟩

theorem Fits.written_ne_nil (h : s.Fits t conflict) : t.columnNames.filter (s.writeColumns.contains ·) ≠ [] := by
  obtain ⟨k, hk⟩ := List.exists_mem_of_ne_nil _ h.key
  exact List.ne_nil_of_mem (h.mem_written hk)

theorem Fits.conflict?_eq (h : s.Fits t conflict) {named : List String} (hn : named ≠ []) (columns : List String)
    (rows : List (List (String × Binding))) :
    BoundInsert.conflict? ⟨⟨t, columns, conflict⟩, named, rows⟩ = some (s.resolved conflict) ∧
      Insert.hasNull ⟨t, columns, conflict⟩ = false := by
  cases conflict with
  | ignore =>
    simp only [BoundInsert.conflict?, Insert.hasNull, resolved]
    rw [if_neg hn]
    exact ⟨rfl, trivial⟩
  | update target set touch =>
    obtain ⟨-, -, hkey, hnull, hupdated, -⟩ := h.settles
    have hmem : Column.updatedAt.name ∈ t.columnNames := List.mem_map_of_mem hupdated
    simp only [BoundInsert.conflict?, Insert.hasNull, resolved]
    simp only [hkey]
    rw [if_neg hn, if_neg fun hidle => hidle.2.1 hmem]
    exact ⟨rfl, hnull⟩

theorem Fits.binds (h : s.Fits t conflict) {ps : List Params} (hp : ∀ p ∈ ps, s.Takes t p) :
    ((ps.map t.bound).any fun r => r.any fun (_, x) => x = .refused) = false := by
  apply List.any_eq_false.2
  intro r hr hany
  obtain ⟨p, hmem, rfl⟩ := List.mem_map.1 hr
  obtain ⟨q, hq, hrefused⟩ := List.any_eq_true.1 hany
  have hrefused : q.2 = .refused := of_decide_eq_true hrefused
  rcases (hp p hmem).mem_bound h hq with ⟨-, hlarge⟩ | ⟨x, hx⟩
  · rw [hlarge] at hrefused
    cases hrefused
  · rw [hx] at hrefused
    cases hrefused

/-- Executing a chunk of suitable rows settles them in the table of the schema. -/
theorem Fits.executeChunk_eq (h : s.Fits t conflict) {ps : List Params} (hne : ps ≠ [])
    (hp : ∀ p ∈ ps, s.Takes t p) {store : Store} (hn : Row.Numbered (store.rows t.name)) (hl : t.Lays (store.rows t.name)) :
    store.executeChunk ⟨⟨t, t.columnNames.filter (s.writeColumns.contains ·), conflict⟩, ps⟩ =
      (t.settleAll s.policy ps (store.rows t.name)).map (store.set t.name) := by
  obtain ⟨p, rest, rfl⟩ := List.exists_cons_of_ne_nil hne
  have hnamed : Insert.named ⟨t, t.columnNames.filter (s.writeColumns.contains ·), conflict⟩ (p :: rest) =
      t.columnNames.filter (s.writeColumns.contains ·) := by
    simp only [Insert.named]
    refine List.filter_eq_self.2 fun c hc => ?_
    rw [(hp p List.mem_cons_self).get?_isSome]
    simpa using (List.mem_filter.1 hc).2
  have hrows : (p :: rest).map (Insert.bindRow ⟨t, t.columnNames.filter (s.writeColumns.contains ·), conflict⟩
      (t.columnNames.filter (s.writeColumns.contains ·))) = (p :: rest).map t.bound :=
    List.map_congr_left fun q hq => (hp q hq).bindRow_eq h rfl
  have hrefused := h.binds hp
  obtain ⟨hconflict, hnull⟩ := h.conflict?_eq h.written_ne_nil
    (t.columnNames.filter (s.writeColumns.contains ·)) ((p :: rest).map t.bound)
  simp only [Store.executeChunk, Insert.bind]
  simp only [hnamed, hrows, hrefused]
  rw [if_neg Bool.false_ne_true, if_neg h.written_ne_nil]
  simp only [Store.execute, BoundInsert.apply]
  simp only [hconflict, hnull]
  rw [if_neg Bool.false_ne_true, h.insertRows_eq hp hn hl]

end Schema

end FeedLedger
