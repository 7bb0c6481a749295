import FeedLedger.Proofs.Layout

namespace FeedLedger

namespace Catalog

variable {t : Table}

theorem nodup_columnNames (h : t ∈ tables) : t.columnNames.Nodup := by
  have hall : ∀ t ∈ tables, t.columnNames.Nodup := by decide +kernel
  exact hall t h

/-- Both dialects spell the columns of a table alike, and without a percent sign. -/
theorem written_columns {c : String} (h : t ∈ tables) (hc : c ∈ t.columnNames) (dialect : Dialect) :
    Identifier.written dialect c = Identifier.written .sqlite c ∧ '%' ∉ (Identifier.written dialect c).toList := by
  have hall : ∀ t ∈ tables, ∀ c ∈ t.columnNames,
      Identifier.written .postgresql c = Identifier.written .sqlite c ∧
        '%' ∉ (Identifier.written .sqlite c).toList := by decide +kernel
  obtain ⟨halike, hpercent⟩ := hall t h c hc
  cases dialect with
  | sqlite => exact ⟨rfl, hpercent⟩
  | postgresql => exact ⟨halike, halike ▸ hpercent⟩

end Catalog

/-- The columns of a table that are wanted, in the order of the table and each once. -/
structure Table.Lists (t : Table) (wanted : String → Prop) (columns : List String) : Prop where
  ordered : columns.Sublist t.columnNames
  once : columns.Nodup
  exact : ∀ c, c ∈ columns ↔ wanted c

theorem Table.lists_filter {t : Table} (ht : t ∈ Catalog.tables) {wanted : String → Prop} {p : String → Bool}
    (h : ∀ c, wanted c ↔ c ∈ t.columnNames ∧ p c = true) : t.Lists wanted (t.columnNames.filter p) := by
  refine ⟨List.filter_sublist, (Catalog.nodup_columnNames ht).filter p, fun c => ?_⟩
  rw [List.mem_filter, h]

namespace Schema

/-- Whether a schema describes rows of a known table: what it writes and what it takes for a key are columns of the
table, other than the number and the time of change, and an update has something to set. -/
structure Targets (s : Schema) (t : Table) : Prop where
  known : Catalog.table? s.table = some t
  written : ∀ c ∈ s.writeColumns, c ∈ t.columnNames ∧ c ≠ Column.id.name ∧ c ≠ Column.updatedAt.name
  keyed : ∀ c ∈ s.conflictKeys, c ∈ t.columnNames ∧ c ≠ Column.id.name ∧ c ≠ Column.updatedAt.name
  something : s.policy = .update → s.touchUpdated = true ∨ ∃ c ∈ s.writeColumns, c ∉ s.conflictKeys

/-- The columns an update sets. -/
def Sets (s : Schema) (c : String) : Prop := c ∈ s.writeColumns ∧ c ∉ s.conflictKeys

instance (s : Schema) (c : String) : Decidable (s.Sets c) := inferInstanceAs (Decidable (_ ∧ _))

variable {s : Schema} {t : Table}

theorem mem_overwritten {c : String} : c ∈ s.overwritten ↔ s.Sets c := by
  simp [overwritten, Sets]

theorem Targets.mem (h : s.Targets t) : t ∈ Catalog.tables := Catalog.mem_of_table? h.known

/-- What a statement does with clashes: it skips the row or, with the conflict keys as its target, sets the written
columns beside them. -/
theorem Targets.conflict_eq (h : s.Targets t) :
    s.policy = .ignore ∧ s.conflict t = .ok .ignore ∨
      s.policy = .update ∧
        ∃ set, t.Lists s.Sets set ∧ s.conflict t = .ok (.update s.conflictKeys set s.touchUpdated) := by
  cases hp : s.policy with
  | ignore =>
    have hconflict : s.conflict t = .ok .ignore := by simp only [conflict, hp]
    exact .inl ⟨rfl, hconflict⟩
  | update =>
    have hknown : s.overwritten.find? (!t.columnNames.contains ·) = none := by
      rw [List.find?_eq_none]
      intro c hc
      have hmem := (h.written c (mem_overwritten.1 hc).1).1
      simpa using hmem
    have hsomething : ¬(s.overwritten = [] ∧ s.touchUpdated = false) := by
      rintro ⟨hnone, hidle⟩
      rcases h.something hp with htouch | ⟨c, hc, hkey⟩
      · rw [htouch] at hidle
        cases hidle
      · have hmem := mem_overwritten.2 ⟨hc, hkey⟩
        rw [hnone] at hmem
        cases hmem
    have hconflict : s.conflict t = .ok (.update s.conflictKeys (t.columnNames.filter fun c =>
        s.overwritten.contains c && !(s.touchUpdated && c = Column.updatedAt.name)) s.touchUpdated) := by
      simp only [conflict, hp, hknown]
      rw [if_neg hsomething]
    refine .inr ⟨rfl, _, ?_, hconflict⟩
    apply Table.lists_filter h.mem
    intro c
    rw [Bool.and_eq_true, List.contains_iff_mem, mem_overwritten]
    constructor
    · intro hc
      obtain ⟨hmem, -, hclock⟩ := h.written c hc.1
      exact ⟨hmem, hc, by simp [hclock]⟩
    · rintro ⟨-, hc, -⟩
      exact hc

/-- One statement serves both dialects. -/
theorem Targets.insert_eq (h : s.Targets t) {conflict : Conflict} (hc : s.conflict t = .ok conflict) {name : String}
    {dialect : Dialect} (hd : Dialect.ofName? name = some dialect) :
    s.insert name = .ok ⟨t, t.columnNames.filter (s.writeColumns.contains ·), conflict⟩ := by
  simp only [insert, h.known, hd, hc]
  rfl

theorem Targets.lists_written (h : s.Targets t) :
    t.Lists (· ∈ s.writeColumns) (t.columnNames.filter (s.writeColumns.contains ·)) := by
  apply Table.lists_filter h.mem
  intro c
  rw [List.contains_iff_mem]
  exact ⟨fun hc => ⟨(h.written c hc).1, hc⟩, fun hc => hc.2⟩

end Schema

/-- Between texts without a character, a separator without it brings none in. -/
theorem Text.notMem_intercalate {c : Char} {separator : String} {l : List String} (hs : c ∉ separator.toList)
    (hl : ∀ s ∈ l, c ∉ s.toList) : c ∉ (separator.intercalate l).toList := by
  induction l with
  | nil => simp
  | cons s rest ih =>
    obtain ⟨hfirst, hrest⟩ := List.forall_mem_cons.1 hl
    by_cases hnil : rest = []
    · subst hnil
      rw [String.intercalate_singleton]
      exact hfirst
    · rw [String.intercalate_cons_of_ne_nil hnil]
      simp only [String.toList_append, List.mem_append, not_or]
      exact ⟨⟨hfirst, hs⟩, ih hrest⟩

namespace Insert

/-- A statement whose names hold no percent sign has no placeholder behind its values. -/
theorem tail_eq_namedTail {i : Insert} (h : '%' ∉ (i.namedTail .sqlite).toList) (dialect : Dialect) :
    i.tail dialect = i.namedTail dialect := by
  cases dialect with
  | sqlite =>
    simp only [tail, Placeholder.counted]
    rw [Placeholder.countedChars_eq_self h, String.ofList_toList]
  | postgresql => rfl

variable {t : Table} {target set : List String}

/-- What an update of a known table says behind its values. -/
theorem tail_update (ht : t ∈ Catalog.tables) (htarget : ∀ c ∈ target, c ∈ t.columnNames)
    (hset : ∀ c ∈ set, c ∈ t.columnNames) (columns : List String) (touch : Bool) (dialect : Dialect) :
    tail dialect ⟨t, columns, .update target set touch⟩ =
      "ON CONFLICT (" ++ Identifier.list dialect target ++ ") DO UPDATE SET " ++
        ", ".intercalate ((set.map fun c =>
            Identifier.written dialect c ++ " = excluded." ++ Identifier.written dialect c) ++
          if touch then ["updated_at = " ++ clock dialect] else []) := by
  refine (tail_eq_namedTail ?_ dialect).trans rfl
  have htargets : '%' ∉ (Identifier.list .sqlite target).toList := by
    apply Text.notMem_intercalate (by decide)
    intro text htext
    obtain ⟨c, hc, rfl⟩ := List.mem_map.1 htext
    exact (Catalog.written_columns ht (htarget c hc) .sqlite).2
  have hassigned : '%' ∉ (", ".intercalate (assignments .sqlite set touch)).toList := by
    apply Text.notMem_intercalate (by decide)
    intro text htext
    rcases List.mem_append.1 htext with hset' | hclock
    · obtain ⟨c, hc, rfl⟩ := List.mem_map.1 hset'
      have hpercent := (Catalog.written_columns ht (hset c hc) .sqlite).2
      simp [hpercent]
    · cases touch with
      | false => cases hclock
      | true =>
        rw [List.mem_singleton.1 hclock]
        decide
  simp only [namedTail, String.toList_append, List.mem_append, not_or]
  exact ⟨⟨⟨by decide, htargets⟩, by decide⟩, hassigned⟩

end Insert

end FeedLedger
