import FeedLedger.Proofs.Layout
import FeedLedger.Ledger.Basic

namespace FeedLedger

namespace Binding

theorem fitting_ne_refused (n : Int) (f : Int → Cell) : fitting n f ≠ .refused := by
  simp only [fitting]
  split <;> simp

theorem forText_ne_refused (v : Value) : forText v ≠ .refused := by
  cases v with
  | int n => exact fitting_ne_refused n fun n => .text (Text.ofInt n)
  | _ => simp [forText]

theorem text_or_null_of_forText {v : Value} {c : Cell} (h : forText v = .cell c) : (∃ s, c = .text s) ∨ c = .null := by
  cases v with
  | float x =>
    cases h
    cases x with
    | nan => exact .inr rfl
    | infinite negative => exact .inl ⟨_, rfl⟩
    | finite negative significand exponent => exact .inl ⟨_, rfl⟩
  | int n =>
    change fitting n (fun n => .text (Text.ofInt n)) = .cell c at h
    simp only [fitting] at h
    split at h
    · cases h
      exact .inl ⟨_, rfl⟩
    · cases h
  | null =>
    cases h
    exact .inr rfl
  | text s | bool b | moment m =>
    cases h
    exact .inl ⟨_, rfl⟩
  | _ => cases h

end Binding

def Chunk.offset (stream : Value) (n : Int) : Chunk := ⟨Insert.offsets, [Store.offsetParams stream n]⟩

def Row.offset (name : String) (n : Int) : Row :=
  ⟨[("stream_name", .text name), ("offset", .integer n), ("updated_at", .clock)]⟩

namespace Store

/-- The rows of the offsets table with the offset of a stream put in. -/
def putOffset (name : String) (n : Int) (rows : List Row) : List Row :=
  if rows.any (·.cell "stream_name" = .text name) then
    rows.map fun r => if r.cell "stream_name" = .text name then Row.offset name n else r
  else rows ++ [Row.offset name n]

/-- The store with the offset of a stream put in. -/
def withOffset (s : Store) (name : String) (n : Int) : Store :=
  s.set Catalog.offsetsTable (putOffset name n (s.rows Catalog.offsetsTable))

theorem rows_withOffset_ne {table : String} (h : table ≠ Catalog.offsetsTable) (s : Store) (name : String) (n : Int) :
    (s.withOffset name n).rows table = s.rows table := rows_set_ne h s _

private theorem cells_offset (name : String) (n : Int) :
    BoundInsert.cells [("stream_name", .cell (.text name)), ("offset", .cell (.integer n))] =
      .ok [("stream_name", .text name), ("offset", .integer n)] := rfl

private theorem newRow_offset (name : String) (n : Int) (rows : List Row) :
    Catalog.streamOffsets.newRow [("stream_name", .text name), ("offset", .integer n)] rows = Row.offset name n := rfl

private theorem agrees_offset (r : Row) (name : String) (n : Int) :
    r.agrees ["stream_name"] (Row.offset name n) = decide (r.cell "stream_name" = .text name) := by
  have hc : (Row.offset name n).cell "stream_name" = .text name := rfl
  simp only [Row.agrees]
  rw [List.all_cons, List.all_nil, hc, Bool.and_true, Bool.eq_iff_iff]
  simp only [Bool.and_eq_true, decide_eq_true_eq]
  constructor
  · exact fun h => h.1
  · intro h
    rw [h]
    exact ⟨rfl, by simp⟩

private theorem overwrite_offset {r : Row} (hl : Keyed.keys r.cells = Catalog.streamOffsets.columnNames) {name : String}
    (hr : r.cell "stream_name" = .text name) (n : Int) :
    r.overwrite (Row.offset name n) ["offset"] true = Row.offset name n := by
  have hk : Keyed.keys r.cells = ["stream_name", "offset", "updated_at"] := hl
  obtain ⟨cells⟩ := r
  match cells, hk with
  | [(a, stream), (b, old), (c, time)], hk =>
    simp only [Keyed.keys, List.map_cons, List.map_nil, List.cons.injEq, and_true] at hk
    obtain ⟨rfl, rfl, rfl⟩ := hk
    obtain rfl : stream = .text name := hr
    rfl

private theorem overwrite_streams {rows : List Row} (hl : Catalog.streamOffsets.Lays rows) (name : String) (n : Int) :
    Catalog.streamOffsets.overwrite ["stream_name"] ["offset"] true (Row.offset name n) rows =
      .ok (rows.map fun r => if r.cell "stream_name" = .text name then Row.offset name n else r) := by
  have hclash : (rows.any fun r => r.agrees ["stream_name"] (Row.offset name n) &&
      (rows.filter fun r => !r.agrees ["stream_name"] (Row.offset name n)).any fun q =>
        Catalog.streamOffsets.keys.any fun key =>
          q.agrees key (r.overwrite (Row.offset name n) ["offset"] true)) = false := by
    rw [List.any_eq_false]
    intro r hr
    rw [agrees_offset]
    intro h
    obtain ⟨hname, hq⟩ := Bool.and_eq_true_iff.1 h
    obtain ⟨q, hmem, hkey⟩ := List.any_eq_true.1 hq
    rw [overwrite_offset (hl r hr) (of_decide_eq_true hname)] at hkey
    have hother := (List.mem_filter.1 hmem).2
    simp only [Table.keys, Catalog.streamOffsets, List.map_nil, List.any_cons, List.any_nil, Bool.or_false] at hkey
    simp [hkey] at hother
  have hmap : (rows.map fun r =>
      if r.agrees ["stream_name"] (Row.offset name n) then r.overwrite (Row.offset name n) ["offset"] true else r) =
      rows.map fun r => if r.cell "stream_name" = .text name then Row.offset name n else r := by
    apply List.map_congr_left
    intro r hr
    rw [agrees_offset]
    by_cases h : r.cell "stream_name" = .text name
    · simp [h, overwrite_offset (hl r hr) h]
    · simp [h]
  simp only [Table.overwrite]
  rw [hclash, hmap]
  rfl

private theorem insertRow_offset {rows : List Row} (hl : Catalog.streamOffsets.Lays rows) (name : String) (n : Int) :
    Catalog.streamOffsets.insertRow (.update ["stream_name"] ["offset"] true) rows
        [("stream_name", .text name), ("offset", .integer n)] = .ok (putOffset name n rows) := by
  have hopen : Catalog.streamOffsets.openKeys [("stream_name", .text name), ("offset", .integer n)] =
      [["stream_name"]] := rfl
  have hrefuses : Catalog.streamOffsets.refuses (Row.offset name n) = false := rfl
  have hany : (rows.any fun r => r.agrees ["stream_name"] (Row.offset name n)) =
      rows.any (·.cell "stream_name" = .text name) := by
    simp only [agrees_offset]
  simp only [Table.insertRow]
  simp only [newRow_offset, hopen, hrefuses, hany, List.any_cons, List.any_nil, Bool.or_false]
  simp only [putOffset]
  by_cases h : (rows.any fun r => decide (r.cell "stream_name" = .text name)) = true
  · rw [if_neg (by simp), if_pos h, if_pos h]
    exact overwrite_streams hl name n
  · rw [if_neg (by simp), if_neg h, if_neg h, if_neg h]

private theorem bind_offset (stream : Value) (n : Int) :
    Insert.offsets.bind [offsetParams stream n] =
      .ok ⟨Insert.offsets, ["stream_name", "offset"],
        [[("stream_name", Binding.forText stream), ("offset", Binding.fitting n .integer)]]⟩ := by
  have hnamed : Insert.offsets.named [offsetParams stream n] = ["stream_name", "offset"] := rfl
  have hrow : Insert.offsets.bindRow ["stream_name", "offset"] (offsetParams stream n) =
      [("stream_name", Binding.forText stream), ("offset", Binding.fitting n .integer)] := rfl
  have hstream : Binding.forText stream ≠ .refused := Binding.forText_ne_refused stream
  have hoffset : Binding.fitting n .integer ≠ .refused := Binding.fitting_ne_refused n .integer
  simp only [Insert.bind]
  simp only [hnamed, List.map_cons, List.map_nil, hrow]
  rw [if_neg (by simp [hstream, hoffset]), if_neg (by simp)]

private theorem conflict?_offset (rows : List (List (String × Binding))) :
    BoundInsert.conflict? ⟨Insert.offsets, ["stream_name", "offset"], rows⟩ =
      some (.update ["stream_name"] ["offset"] true) := by
  have h : BoundInsert.conflict? ⟨Insert.offsets, ["stream_name", "offset"], []⟩ =
      some (.update ["stream_name"] ["offset"] true) := by decide +kernel
  exact h

private theorem hasNull_offsets : Insert.offsets.hasNull = false := by decide +kernel

private theorem executeChunk_offset_eq (s : Store) (stream : Value) (n : Int) :
    s.executeChunk (Chunk.offset stream n) =
      (Catalog.streamOffsets.insertRows (.update ["stream_name"] ["offset"] true) (s.rows Catalog.offsetsTable)
        [[("stream_name", Binding.forText stream), ("offset", Binding.fitting n .integer)]]).map
        (s.set Catalog.offsetsTable) := by
  simp only [executeChunk, Chunk.offset]
  simp only [bind_offset]
  simp only [execute, BoundInsert.apply]
  simp only [conflict?_offset, hasNull_offsets]
  rfl

/-- A text is taken for a stream; an offset has to fit into 64 bits. -/
theorem executeChunk_offset {s : Store} (h : s.Laid) {stream : Value} {name : String}
    (hs : Binding.forText stream = .cell (.text name)) (n : Int) :
    s.executeChunk (Chunk.offset stream n) =
      if Binding.Fits n then .ok (s.withOffset name n) else .error .integerTooLarge := by
  have hl : Catalog.streamOffsets.Lays (s.rows Catalog.offsetsTable) := h _ Catalog.streamOffsets_mem
  rw [executeChunk_offset_eq, hs]
  simp only [Binding.fitting]
  split
  · rw [Table.insertRows, cells_offset]
    simp only [insertRow_offset hl, Table.insertRows]
    rfl
  · rfl

/-- An offset that is stored is stored under a text. -/
theorem withOffset_of_executeChunk {s s' : Store} (h : s.Laid) {stream : Value} {n : Int}
    (he : s.executeChunk (Chunk.offset stream n) = .ok s') :
    ∃ name, Binding.forText stream = .cell (.text name) ∧ Binding.Fits n ∧ s' = s.withOffset name n := by
  cases hs : Binding.forText stream with
  | cell c =>
    rcases Binding.text_or_null_of_forText hs with ⟨name, rfl⟩ | rfl
    · rw [executeChunk_offset h hs] at he
      split at he
      · rename_i hn
        cases he
        exact ⟨name, rfl, hn, rfl⟩
      · cases he
    · -- a stream without a text breaks the table's constraint
      rw [executeChunk_offset_eq, hs] at he
      simp only [Binding.fitting] at he
      split at he <;> cases he
  | refused => exact absurd hs (Binding.forText_ne_refused stream)
  | unsupported =>
    rw [executeChunk_offset_eq, hs] at he
    cases he
  | tooLarge =>
    rw [executeChunk_offset_eq, hs] at he
    cases he

/-- An offset of a stream with a name is kept out by the driver alone. -/
theorem executeChunk_offset_error {s : Store} (h : s.Laid) {stream : Value} (hs : Binding.forText stream ≠ .cell .null)
    {n : Int} {f : Failure} (he : s.executeChunk (Chunk.offset stream n) = .error f) :
    f = .integerTooLarge ∨ f = .database .unsupported := by
  cases hb : Binding.forText stream with
  | cell c =>
    rcases Binding.text_or_null_of_forText hb with ⟨name, rfl⟩ | rfl
    · rw [executeChunk_offset h hb] at he
      split at he
      · cases he
      · cases he
        exact .inl rfl
    · exact absurd hb hs
  | refused => exact absurd hb (Binding.forText_ne_refused stream)
  | unsupported =>
    rw [executeChunk_offset_eq, hb] at he
    cases he
    exact .inr rfl
  | tooLarge =>
    rw [executeChunk_offset_eq, hb] at he
    cases he
    exact .inl rfl

theorem get?_offsetEntries (s : Store) (name : String) :
    Keyed.get? name s.offsetEntries =
      ((s.rows Catalog.offsetsTable).find? (·.cell "stream_name" = .text name)).map (·.cell "offset") := by
  simp only [offsetEntries]
  induction s.rows Catalog.offsetsTable with
  | nil => rfl
  | cons r rest ih =>
    rw [List.filterMap_cons]
    cases hr : r.cell "stream_name" with
    | text stream =>
      have hentry : offsetOfRow? r = some (stream, r.cell "offset") := by simp [offsetOfRow?, hr]
      by_cases h : stream = name <;> simp [hentry, Keyed.get?, hr, h, ih]
    | _ =>
      have hentry : offsetOfRow? r = none := by simp [offsetOfRow?, hr]
      simp [hentry, hr, ih]

theorem find?_putOffset (name other : String) (n : Int) (rows : List Row) :
    ((putOffset name n rows).find? (·.cell "stream_name" = .text other)).map (·.cell "offset") =
      if other = name then some (.integer n)
      else (rows.find? (·.cell "stream_name" = .text other)).map (·.cell "offset") := by
  have hname : (Row.offset name n).cell "stream_name" = .text name := rfl
  have hoffset : (Row.offset name n).cell "offset" = .integer n := rfl
  simp only [putOffset]
  split
  · rename_i hany
    have hkeep : ((fun r : Row => decide (r.cell "stream_name" = .text other)) ∘
        fun r => if r.cell "stream_name" = .text name then Row.offset name n else r) =
        fun r => decide (r.cell "stream_name" = .text other) := by
      funext r
      by_cases hr : r.cell "stream_name" = .text name <;> simp [hr, hname]
    rw [List.find?_map, hkeep, Option.map_map]
    cases hf : rows.find? (·.cell "stream_name" = .text other) with
    | none =>
      have hother : other ≠ name := by
        rintro rfl
        obtain ⟨r, hr, hc⟩ := List.any_eq_true.1 hany
        exact List.find?_eq_none.1 hf r hr hc
      rw [if_neg hother]
      rfl
    | some r =>
      have hr : r.cell "stream_name" = .text other := by simpa using List.find?_some hf
      by_cases hother : other = name
      · simp [hr, hother, hoffset]
      · simp [hr, hother]
  · rename_i hany
    have hnone : rows.find? (·.cell "stream_name" = .text name) = none := by
      rw [List.find?_eq_none]
      intro r hr hc
      exact hany (List.any_eq_true.2 ⟨r, hr, hc⟩)
    rw [List.find?_append]
    by_cases hother : other = name
    · subst hother
      simp [hnone, hname, hoffset]
    · have hne : ¬name = other := fun e => hother e.symm
      simp [hname, hother, hne]

/-- A stream is found at the offset put in, and the other streams where they were. -/
theorem get?_withOffset (s : Store) (name other : String) (n : Int) :
    Keyed.get? other (s.withOffset name n).offsetEntries =
      if other = name then some (.integer n) else Keyed.get? other s.offsetEntries := by
  rw [get?_offsetEntries, get?_offsetEntries, withOffset, rows_set_self]
  exact find?_putOffset name other n _

theorem lookUp_withOffset {stream : Value} {name : String} (hs : Binding.forText stream = .cell (.text name))
    (s : Store) (n : Int) : Ledger.lookUp stream (s.withOffset name n) = .ok (some n) := by
  simp only [Ledger.lookUp]
  rw [hs]
  simp only [offset?, get?_withOffset, if_true]
  rfl

end Store

theorem Ledger.getOffset_of_lookUp {l : Ledger} {stream : Value} {found : Option Int}
    (h : lookUp stream l.store = .ok found) : l.getOffset [] stream = .ok found := by
  simp only [getOffset, readStore, Outages.at?_nil, h]
  rfl

theorem Ledger.getOffset_of_offset? {l : Ledger} {stream : String} {found : Option Int}
    (h : l.store.offset? stream = .ok found) : l.getOffset [] (.text stream) = .ok found := by
  apply getOffset_of_lookUp
  change (l.store.offset? stream).mapError Failure.storedOffset = _
  rw [h]
  rfl

end FeedLedger
