import FeedLedger.Proofs.Layout

namespace FeedLedger.Row

/-- Rows that hold the numbers from one on, in order. -/
def Numbered (rows : List Row) : Prop :=
  ∀ (i : Nat) (r : Row), rows[i]? = some r → r.cell Column.id.name = .integer (i + 1)

theorem numbered_nil : Numbered [] := by
  intro i r h
  simp at h

theorem Numbered.append {rows : List Row} (h : Numbered rows) {row : Row}
    (hr : row.cell Column.id.name = .integer (rows.length + 1)) : Numbered (rows ++ [row]) := by
  intro i r hi
  by_cases hlt : i < rows.length
  · rw [List.getElem?_append_left hlt] at hi
    exact h i r hi
  · rw [List.getElem?_append_right (by omega)] at hi
    obtain ⟨hz, rfl⟩ : i - rows.length = 0 ∧ row = r := by
      cases hk : i - rows.length with
      | zero => rw [hk] at hi; exact ⟨rfl, by simpa using hi⟩
      | succ k => rw [hk] at hi; simp at hi
    rw [hr, show i = rows.length by omega]

theorem Numbered.map {rows : List Row} (h : Numbered rows) {f : Row → Row}
    (hf : ∀ r, (f r).cell Column.id.name = r.cell Column.id.name) : Numbered (rows.map f) := by
  intro i r hi
  rw [List.getElem?_map] at hi
  obtain ⟨q, hq, rfl⟩ := Option.map_eq_some_iff.1 hi
  rw [hf, h i q hq]

theorem Numbered.eq_of_cell {rows : List Row} (h : Numbered rows) {r q : Row} (hr : r ∈ rows) (hq : q ∈ rows)
    (hc : r.cell Column.id.name = q.cell Column.id.name) : r = q := by
  obtain ⟨i, hi⟩ := List.mem_iff_getElem?.1 hr
  obtain ⟨j, hj⟩ := List.mem_iff_getElem?.1 hq
  have hij : i = j := by
    have hn := hc
    rw [h i r hi, h j q hj] at hn
    injection hn with hn
    omega
  rw [hij, hj] at hi
  exact (Option.some.inj hi).symm

private theorem used_numbered {rows : List Row} (h : Numbered rows) (n : Int) :
    n ∈ rows.filterMap (number? Column.id.name) ↔ 1 ≤ n ∧ n ≤ rows.length := by
  have hnumber (r : Row) (m : Int) (hr : r.cell Column.id.name = .integer m) : number? Column.id.name r = some m := by
    simp only [number?]
    rw [hr]
  rw [List.mem_filterMap]
  constructor
  · rintro ⟨r, hr, hn⟩
    obtain ⟨i, hi⟩ := List.mem_iff_getElem?.1 hr
    have hlt := (List.getElem?_eq_some_iff.1 hi).1
    rw [hnumber r _ (h i r hi)] at hn
    cases hn
    omega
  · rintro ⟨hone, hle⟩
    have hlt : n.toNat - 1 < rows.length := by omega
    refine ⟨rows[n.toNat - 1], List.getElem_mem hlt, ?_⟩
    rw [hnumber _ _ (h _ _ (List.getElem?_eq_getElem hlt))]
    congr 1
    omega

private theorem length_used {rows : List Row} (h : Numbered rows) :
    (rows.filterMap (number? Column.id.name)).length = rows.length := by
  have hall : ∀ l : List Row, (∀ r ∈ l, ∃ n, number? Column.id.name r = some n) →
      (l.filterMap (number? Column.id.name)).length = l.length := by
    intro l hl
    induction l with
    | nil => rfl
    | cons r rest ih =>
      obtain ⟨n, hn⟩ := hl r List.mem_cons_self
      rw [List.filterMap_cons_some hn, List.length_cons, List.length_cons,
        ih fun q hq => hl q (List.mem_cons_of_mem _ hq)]
  refine hall rows fun r hr => ?_
  obtain ⟨i, hi⟩ := List.mem_iff_getElem?.1 hr
  refine ⟨i + 1, ?_⟩
  simp only [number?]
  rw [h i r hi]

theorem largest?_mem {used : List Int} {n : Int} (h : largest? used = some n) : n ∈ used := by
  induction used generalizing n with
  | nil => cases h
  | cons k r ih =>
    simp only [largest?] at h
    split at h
    · cases h
      exact List.mem_cons_self
    · rename_i m hm
      cases h
      split
      · exact List.mem_cons_of_mem _ (ih hm)
      · exact List.mem_cons_self

theorem largest?_eq_none {used : List Int} (h : largest? used = none) : used = [] := by
  cases used with
  | nil => rfl
  | cons k r =>
    simp only [largest?] at h
    split at h <;> cases h

theorem firstFree_of_used {used : List Int} (fuel : Nat) (n : Int)
    (h : ∀ m, n ≤ m → m < n + fuel → m ∈ used) : firstFree used n fuel = n + fuel := by
  induction fuel generalizing n with
  | zero => simp [firstFree]
  | succ fuel ih =>
    have hn : used.contains n = true := by simpa using h n (by omega) (by omega)
    rw [firstFree, if_pos hn, ih (n + 1) fun m hlo hhi => h m (by omega) (by omega)]
    omega

/-- The next number is one more than there are rows, also behind the largest number of all. -/
theorem Numbered.nextNumber {rows : List Row} (h : Numbered rows) :
    nextNumber Column.id.name rows = rows.length + 1 := by
  simp only [Row.nextNumber]
  split
  · rename_i hnone
    have hl := length_used h
    rw [largest?_eq_none hnone, List.length_nil] at hl
    rw [← hl]
    rfl
  · rename_i n hn
    obtain ⟨hone, hle⟩ := (used_numbered h n).1 (largest?_mem hn)
    have hlast : (rows.length : Int) ∈ rows.filterMap (number? Column.id.name) :=
      (used_numbered h _).2 ⟨by omega, by omega⟩
    have hge := le_largest? hlast hn
    split
    · rw [length_used h, firstFree_of_used _ _ fun m hlo hhi => (used_numbered h m).2 ⟨hlo, by omega⟩]
      omega
    · omega

end FeedLedger.Row
