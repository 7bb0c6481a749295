import FeedLedger.Proofs.Declared
import FeedLedger.Proofs.Instants
import FeedLedger.Proofs.Statement
import Mathlib.Data.List.Perm.Subperm

namespace FeedLedger

/-- A name without a line feed is read as it is written. -/
theorem Identifier.read_eq {name : String} (dialect : Dialect) (h : '\n' ∉ name.toList) : read dialect name = name := by
  have hword : Text.withoutLineFeed name.toList = name.toList := by
    unfold Text.withoutLineFeed
    split
    · rename_i r hr
      have hmem : '\n' ∈ name.toList.reverse := by simp [hr]
      exact absurd (List.mem_reverse.1 hmem) h
    · rfl
  rw [read, hword, String.ofList_toList, ite_self]

namespace Catalog

variable {t : Table}

theorem name_of_number {c : Column} (h : t ∈ tables) (hc : c ∈ t.columns) (hn : c.filling = .number) :
    c.name = Column.id.name := by
  have hall : ∀ t ∈ tables, ∀ c ∈ t.columns, c.filling = .number → c.name = Column.id.name := by decide +kernel
  exact hall t h c hc hn

theorem nodup_of_mem_keys {key : List String} (h : t ∈ tables) (hk : key ∈ t.keys) : key.Nodup := by
  have hall : ∀ t ∈ tables, ∀ key ∈ t.keys, key.Nodup := by decide +kernel
  exact hall t h key hk

/-- Without the number, no column of a key is filled by its table, so a new row may clash on it. -/
theorem mem_openKeys {key : List String} (h : t ∈ tables) (hk : key ∈ t.keys) (hid : Column.id.name ∉ key)
    (given : List (String × Cell)) : key ∈ t.openKeys given := by
  refine List.mem_filter.2 ⟨hk, ?_⟩
  rw [Bool.not_eq_true', List.any_eq_false]
  intro c hc hnumbers
  obtain ⟨d, hd, hfill⟩ := (Option.any_eq_true _ _).1 hnumbers
  obtain ⟨hm, rfl⟩ := Table.mem_of_column? hd
  have hnumber : d.filling = .number := of_decide_eq_true (Bool.and_eq_true_iff.1 hfill).1
  rw [name_of_number h hm hnumber] at hc
  exact hid hc

/-- Columns of a table are what their names stand for in a statement. -/
theorem columnsNamed?_eq {target : List String} (h : t ∈ tables) (ht : ∀ c ∈ target, c ∈ t.columnNames) :
    t.columnsNamed? target = some target := by
  have hall : ∀ t ∈ tables, ∀ c ∈ t.columnNames, (c.toList.all fun x => x.toLower = x && x ≠ '\n') = true := by
    decide +kernel
  have hplain {c : String} (hc : c ∈ t.columnNames) {x : Char} (hx : x ∈ c.toList) : x.toLower = x ∧ x ≠ '\n' := by
    simpa using List.all_eq_true.1 (hall t h c hc) x hx
  have hlower (c : String) (hc : c ∈ t.columnNames) : c.toLower = c := by
    rw [← String.toList_inj]
    change (c.map Char.toLower).toList = c.toList
    rw [String.toList_map]
    exact (List.map_congr_left fun x hx => (hplain hc hx).1).trans (List.map_id _)
  induction target with
  | nil => rfl
  | cons c rest ih =>
    obtain ⟨hc, hrest⟩ := List.forall_mem_cons.1 ht
    have hread := Identifier.read_eq .sqlite fun hx => (hplain hc hx).2 rfl
    have hsome : (t.columnNames.find? (·.toLower = c)).isSome :=
      List.find?_isSome.2 ⟨c, hc, decide_eq_true (hlower c hc)⟩
    obtain ⟨d, hd⟩ := Option.isSome_iff_exists.1 hsome
    have hdc : d.toLower = c := by simpa using List.find?_some hd
    rw [hlower d (List.mem_of_find?_eq_some hd)] at hdc
    simp only [Table.columnsNamed?, Table.columnNamed?, hread, hlower c hc, hd, ih hrest, hdc]

/-- A target of columns and the key that it names hold the same columns. -/
theorem mem_targetKey? {target key : List String} (h : t ∈ tables) (ht : ∀ c ∈ target, c ∈ t.columnNames)
    (hkey : t.targetKey? target = some key) (c : String) : c ∈ key ↔ c ∈ target := by
  rw [Table.targetKey?, columnsNamed?_eq h ht] at hkey
  simp only at hkey
  split at hkey
  · cases hkey
    rfl
  · have hsame : key.length = target.length ∧ ∀ d ∈ key, d ∈ target := by simpa using List.find?_some hkey
    have hsubperm := List.subperm_of_subset (nodup_of_mem_keys h (List.mem_of_find?_eq_some hkey)) hsame.2
    exact (hsubperm.perm_of_length_le (Nat.le_of_eq hsame.1.symm)).mem_iff

end Catalog

theorem Row.agrees_congr {key target : List String} (h : ∀ c, c ∈ key ↔ c ∈ target) (r q : Row) :
    r.agrees key q = r.agrees target q := by
  rw [Bool.eq_iff_iff, agrees_iff, agrees_iff]
  simp only [h]

namespace Schema

/-- Whether parameters name every column that a schema writes. -/
def Names (s : Schema) (p : Params) : Prop := ∀ c ∈ s.writeColumns, (Keyed.get? c p).isSome

/-- Whether a row holds, in each written column, what the parameters are bound to there. -/
def Holds (s : Schema) (t : Table) (p : Params) (row : Row) : Prop :=
  ∀ c ∈ t.columns, c.name ∈ s.writeColumns →
    ∃ x, Keyed.get? c.name p = some x ∧ c.type.bind x = .cell (row.cell c.name)

/-- What an update makes of a stored row: if it has the conflict key of the new one, it takes over the columns that are
set, and its time of change is renewed if the schema says so. -/
def Overwrites (s : Schema) (t : Table) (row r r' : Row) : Prop :=
  if r.agrees s.conflictKeys row then
    ∀ c ∈ t.columnNames, r'.cell c =
      if s.Sets c then row.cell c
      else if s.touchUpdated = true ∧ c = Column.updatedAt.name then .clock
      else r.cell c
  else r' = r

/-- Whether a row keeps all that upserts may not change. -/
def Spares (s : Schema) (t : Table) (r r' : Row) : Prop :=
  match s.policy with
  | .ignore => r' = r
  | .update =>
    ∀ c ∈ t.columnNames, ¬s.Sets c → (c = Column.updatedAt.name → s.touchUpdated = false) → r'.cell c = r.cell c

/-- What a new row makes of the rows of its table. -/
inductive Puts (s : Schema) (t : Table) (row : Row) (rows : List Row) : List Row → Prop
  | appended (hfree : ∀ r ∈ rows, ∀ key ∈ t.keys, Column.id.name ∉ key → r.agrees key row = false)
      (hother : s.policy = .update → ∀ r ∈ rows, r.agrees s.conflictKeys row = false) : Puts s t row rows (rows ++ [row])
  | skipped (hp : s.policy = .ignore) (htaken : ∃ r ∈ rows, ∃ key ∈ t.keys, r.agrees key row = true) :
      Puts s t row rows rows
  | overwritten {rows' : List Row} (hp : s.policy = .update) (htaken : ∃ r ∈ rows, r.agrees s.conflictKeys row = true)
      (hover : List.Forall₂ (s.Overwrites t row) rows rows') : Puts s t row rows rows'

/-- What writing rows of parameters, one after the other, makes of the rows of a table. -/
inductive Writes (s : Schema) (t : Table) : List Params → List Row → List Row → Prop
  | done (rows : List Row) : Writes s t [] rows rows
  | row {p : Params} {rest : List Params} {row : Row} {rows mid rows' : List Row} (hrow : s.Holds t p row)
      (hput : s.Puts t row rows mid) (hrest : Writes s t rest mid rows') : Writes s t (p :: rest) rows rows'

variable {s : Schema} {t : Table} {rows mid rows' : List Row} {row : Row} {p : Params} {given : List (String × Cell)}

theorem Writes.append {ps qs : List Params} (h : s.Writes t ps rows mid) (h' : s.Writes t qs mid rows') :
    s.Writes t (ps ++ qs) rows rows' := by
  induction h with
  | done => exact h'
  | row hrow hput hrest ih => exact .row hrow hput (ih h')

theorem Spares.refl (s : Schema) (t : Table) (r : Row) : s.Spares t r r := by
  unfold Spares
  split
  · rfl
  · exact fun _ _ _ _ => rfl

theorem Spares.trans {q r r' : Row} (h : s.Spares t q r) (h' : s.Spares t r r') : s.Spares t q r' := by
  unfold Spares at h h' ⊢
  split
  · rename_i hp
    simp only [hp] at h h'
    exact h'.trans h
  · rename_i hp
    simp only [hp] at h h'
    exact fun c hc hset htouch => (h' c hc hset htouch).trans (h c hc hset htouch)

theorem Overwrites.spares (hp : s.policy = .update) {r r' : Row} (h : s.Overwrites t row r r') : s.Spares t r r' := by
  unfold Overwrites at h
  split at h
  case isTrue =>
    simp only [Spares, hp]
    intro c hc hset htouch
    rw [h c hc, if_neg hset, if_neg]
    rintro ⟨htouched, hclock⟩
    rw [htouch hclock] at htouched
    cases htouched
  case isFalse =>
    rw [h]
    exact .refl s t r

/-- A new row leaves each stored one in its place, sparing what upserts may not change. -/
theorem Puts.spares (h : s.Puts t row rows mid) : List.Forall₂ (s.Spares t) rows (mid.take rows.length) := by
  have hself : List.Forall₂ (s.Spares t) rows rows := List.forall₂_same.2 fun r _ => .refl s t r
  cases h with
  | appended hfree hother =>
    rw [List.take_left]
    exact hself
  | skipped hp htaken =>
    rw [List.take_length]
    exact hself
  | overwritten hp htaken hover =>
    rw [hover.length_eq, List.take_length]
    exact hover.imp fun _ _ => Overwrites.spares hp

private theorem forall₂_trans {l m n : List Row} (h : List.Forall₂ (s.Spares t) l m) (h' : List.Forall₂ (s.Spares t) m n) :
    List.Forall₂ (s.Spares t) l n := by
  induction h generalizing n with
  | nil => exact h'
  | cons hfirst hrest ih =>
    cases h' with
    | cons hfirst' hrest' => exact .cons (hfirst.trans hfirst') (ih hrest')

/-- However many rows are written, each stored one is spared in its place. -/
theorem Writes.spares {ps : List Params} (h : s.Writes t ps rows rows') :
    List.Forall₂ (s.Spares t) rows (rows'.take rows.length) := by
  induction h with
  | done rows =>
    rw [List.take_length]
    exact List.forall₂_same.2 fun r _ => .refl s t r
  | @row p rest row rows mid rows' hrow hput hrest ih =>
    have hfirst := hput.spares
    have hlength : rows.length ≤ mid.length := by
      have heq := hfirst.length_eq
      rw [List.length_take] at heq
      omega
    -- The rest of the run starts from more rows; those it has in the places of the stored ones are cut out.
    have hrest' := List.forall₂_take rows.length ih
    rw [List.take_take, Nat.min_eq_left hlength] at hrest'
    exact forall₂_trans hfirst hrest'

/-- The conflict clause as the database reads it. -/
def Resolves (s : Schema) (t : Table) : Conflict → Prop
  | .ignore => s.policy = .ignore
  | .update key set touch =>
    s.policy = .update ∧ touch = s.touchUpdated ∧ t.Lists s.Sets set ∧ ∀ c, c ∈ key ↔ c ∈ s.conflictKeys

theorem Targets.resolves (h : s.Targets t) {name : String} {i : Insert} (hi : s.insert name = .ok i) {b : BoundInsert}
    (hb : b.statement = i) {conflict : Conflict} (hc : b.conflict? = some conflict) : s.Resolves t conflict := by
  obtain ⟨t', declared, ht, hdeclared, rfl⟩ := insert_eq_ok hi
  obtain rfl : t = t' := Option.some.inj (h.known.symm.trans ht)
  simp only [BoundInsert.conflict?, hb] at hc
  split at hc
  · cases hc
  rcases h.conflict_eq with ⟨hp, hignore⟩ | ⟨hp, set, hset, hupdate⟩
  · obtain rfl : Conflict.ignore = declared := Except.ok.inj (hignore.symm.trans hdeclared)
    cases hc
    exact hp
  · obtain rfl := Except.ok.inj (hupdate.symm.trans hdeclared)
    simp only at hc
    split at hc
    · cases hc
    rename_i key hkey
    split at hc
    · cases hc
    · cases hc
      exact ⟨hp, rfl, hset, Catalog.mem_targetKey? h.mem (fun c hc => (h.keyed c hc).1) hkey⟩

/-- An update sets the written columns beside the key in the rows that have the conflict key. -/
theorem Resolves.overwrites {key set : List String} {touch : Bool} (h : s.Resolves t (.update key set touch))
    (hl : t.Lays rows) (ho : t.overwrite key set touch row rows = .ok mid) :
    List.Forall₂ (s.Overwrites t row) rows mid := by
  obtain ⟨-, rfl, hset, hkey⟩ := h
  simp only [Table.overwrite] at ho
  split at ho
  · cases ho
  cases ho
  rw [List.forall₂_map_right_iff, List.forall₂_same]
  intro r hr
  simp only [Overwrites, Row.agrees_congr hkey]
  split
  · intro c hc
    have hmem : c ∈ Keyed.keys r.cells := by rw [hl r hr]; exact hc
    rw [Row.cell_overwrite hmem]
    simp [hset.exact]
  · rfl

/-- Inserting a row that can be inserted puts it into the table. -/
theorem Resolves.puts {conflict : Conflict} (h : s.Resolves t conflict) (ht : s.Targets t) (hl : t.Lays rows)
    (hi : t.insertRow conflict rows given = .ok mid) : s.Puts t (t.newRow given rows) rows mid := by
  -- Where the insert looks for a clash and finds none, no key without the number is taken, since all of them are open.
  have hfree (hclash : ¬(rows.any fun r => (t.openKeys given).any fun key => r.agrees key (t.newRow given rows)) = true) :
      ∀ r ∈ rows, ∀ key ∈ t.keys, Column.id.name ∉ key → r.agrees key (t.newRow given rows) = false := by
    intro r hr key hkey hid
    by_contra hne
    apply hclash
    have hopen := Catalog.mem_openKeys ht.mem hkey hid given
    exact List.any_eq_true.2 ⟨r, hr, List.any_eq_true.2 ⟨key, hopen, eq_true_of_ne_false hne⟩⟩
  simp only [Table.insertRow] at hi
  split at hi
  · cases hi
  cases conflict with
  | ignore =>
    have hp : s.policy = .ignore := h
    simp only at hi
    cases hi
    split
    case isTrue hclash =>
      obtain ⟨r, hr, hkeys⟩ := List.any_eq_true.1 hclash
      obtain ⟨key, hkey, htaken⟩ := List.any_eq_true.1 hkeys
      exact .skipped hp ⟨r, hr, key, (List.mem_filter.1 hkey).1, htaken⟩
    case isFalse hclash => exact .appended (hfree hclash) fun hu => by rw [hp] at hu; cases hu
  | update key set touch =>
    have hagrees := Row.agrees_congr h.2.2.2
    simp only at hi
    split at hi
    case isTrue htaken =>
      obtain ⟨r, hr, hkey⟩ := List.any_eq_true.1 htaken
      exact .overwritten h.1 ⟨r, hr, hagrees r _ ▸ hkey⟩ (h.overwrites hl hi)
    case isFalse hnone =>
      split at hi
      · cases hi
      rename_i hclash
      cases hi
      refine .appended (hfree hclash) fun _ r hr => ?_
      by_contra hne
      rw [← hagrees] at hne
      exact hnone (List.any_eq_true.2 ⟨r, hr, eq_true_of_ne_false hne⟩)

/-- A new row holds what its parameters were bound to. -/
theorem Targets.holds (h : s.Targets t) {i : Insert} (hi : i.table = t) {bound : List (String × Binding)}
    (hbound : ∀ c ∈ s.writeColumns, Keyed.get? c bound = some (i.bindColumn p c))
    (hcells : BoundInsert.cells bound = .ok given) : s.Holds t p (t.newRow given rows) := by
  intro c hc hw
  have hcolumn := Table.column?_of_mem (Catalog.nodup_columnNames h.mem) hc
  have hget := hbound c.name hw
  rw [BoundInsert.bound_of_cells hcells, Keyed.get?_mapValues fun _ y => Binding.cell y] at hget
  obtain ⟨x, hx, hbind⟩ := Option.map_eq_some_iff.1 hget
  have hfill : c.filling ≠ .number := fun hn => (h.written c.name hw).2.1 (Catalog.name_of_number h.mem hc hn)
  have hcell : (t.newRow given rows).cell c.name = x := by
    rw [Table.cell_newRow hcolumn, Column.fill, hx]
    cases x with
    | null =>
      -- Only a numbered column would have a number for the null.
      cases hf : c.filling with
      | number => exact absurd hf hfill
      | _ => rfl
    | _ => rfl
  rw [hcell]
  simp only [Insert.bindColumn, hi, hcolumn] at hbind
  cases hv : Keyed.get? c.name p with
  | none =>
    rw [hv] at hbind
    cases hbind
  | some v =>
    rw [hv] at hbind
    exact ⟨v, rfl, hbind.symm⟩

end Schema

/-- Parameters that name all columns of a statement are bound to each of them. -/
theorem Insert.forall₂_of_bind {i : Insert} {ps : List Params} (hnames : ∀ p ∈ ps, ∀ c ∈ i.columns, (Keyed.get? c p).isSome)
    {b : BoundInsert} (hb : i.bind ps = .ok b) :
    List.Forall₂ (fun p bound => ∀ c ∈ i.columns, Keyed.get? c bound = some (i.bindColumn p c)) ps b.rows := by
  cases ps with
  | nil =>
    cases hb
    exact .nil
  | cons p rest =>
    have hnamed : i.named (p :: rest) = i.columns := List.filter_eq_self.2 (hnames p List.mem_cons_self)
    simp only [bind, hnamed] at hb
    split at hb
    · cases hb
    split at hb
    case isTrue hnone =>
      -- Without columns, nothing is asked of the rows but that there is one for each of the parameters.
      cases hb
      simp only [hnone, bindEmpty]
      split
      · rename_i hone
        obtain rfl : rest = [] := by simpa using hone
        exact .cons (by simp) .nil
      · rw [List.forall₂_map_right_iff, List.forall₂_same]
        simp
    case isFalse =>
      cases hb
      rw [List.forall₂_map_right_iff, List.forall₂_same]
      intro q _ c hc
      rw [bindRow, Keyed.get?_graph, if_pos hc]

namespace Schema

variable {s : Schema} {t : Table}

theorem Targets.writes_insertRows (h : s.Targets t) {conflict : Conflict} (hr : s.Resolves t conflict) {i : Insert}
    (hi : i.table = t) {ps : List Params} {bound : List (List (String × Binding))}
    (hbound : List.Forall₂ (fun p bound => ∀ c ∈ s.writeColumns, Keyed.get? c bound = some (i.bindColumn p c)) ps bound)
    {rows rows' : List Row} (hl : t.Lays rows) (hins : t.insertRows conflict rows bound = .ok rows') :
    s.Writes t ps rows rows' := by
  induction hbound generalizing rows with
  | nil =>
    cases hins
    exact .done _
  | cons hfirst hrest ih =>
    simp only [Table.insertRows] at hins
    split at hins
    · cases hins
    rename_i given hcells
    split at hins
    · cases hins
    rename_i mid hmid
    exact .row (h.holds hi hfirst hcells) (hr.puts h hl hmid) (ih (hl.insertRow hmid) hins)

/-- Executing a chunk of the statement writes its rows into the table, and no others anywhere. -/
theorem Targets.writes_executeChunk (h : s.Targets t) {name : String} {i : Insert} (hi : s.insert name = .ok i)
    {ps : List Params} (hnames : ∀ p ∈ ps, s.Names p) {store store' : Store} (hl : store.Laid)
    (he : store.executeChunk ⟨i, ps⟩ = .ok store') :
    s.Writes t ps (store.rows t.name) (store'.rows t.name) ∧ ∀ table, table ≠ t.name → store'.rows table = store.rows table := by
  obtain ⟨t', conflict, ht, -, hstated⟩ := insert_eq_ok hi
  obtain rfl : t = t' := Option.some.inj (h.known.symm.trans ht)
  have htable : i.table = t := by rw [hstated]
  have hcolumns : ∀ c, c ∈ i.columns ↔ c ∈ s.writeColumns := by
    rw [hstated]
    exact h.lists_written.exact
  obtain ⟨b, resolved, rows, hb, hc, hins, rfl⟩ := Store.insertRows_of_executeChunk he
  have hresolves := h.resolves hi (Insert.statement_of_bind hb) hc
  have hbound := Insert.forall₂_of_bind (fun p hp c hc => hnames p hp c ((hcolumns c).1 hc)) hb
  simp only [hcolumns] at hbound
  simp only [Chunk.table, htable] at hins ⊢
  rw [Store.rows_set_self]
  exact ⟨h.writes_insertRows hresolves htable hbound (hl t h.mem) hins, fun table hne => Store.rows_set_ne hne store rows⟩

/-- So does a whole run of chunks. -/
theorem Targets.writes_executeChunks (h : s.Targets t) {name : String} {i : Insert} (hi : s.insert name = .ok i)
    {chunks : List (List Params)} (hnames : ∀ ps ∈ chunks, ∀ p ∈ ps, s.Names p) {store store' : Store} (hl : store.Laid)
    (he : store.executeChunks (chunks.map (⟨i, ·⟩)) = .ok store') :
    s.Writes t chunks.flatten (store.rows t.name) (store'.rows t.name) ∧
      ∀ table, table ≠ t.name → store'.rows table = store.rows table := by
  induction chunks generalizing store with
  | nil =>
    cases he
    exact ⟨.done _, fun _ _ => rfl⟩
  | cons ps rest ih =>
    obtain ⟨hfirst, hlater⟩ := List.forall_mem_cons.1 hnames
    simp only [List.map_cons, Store.executeChunks] at he
    split at he
    · cases he
    rename_i mid hmid
    have hk : i.table ∈ Catalog.tables := table_mem_of_insert hi
    obtain ⟨hwrites, hsame⟩ := h.writes_executeChunk hi hfirst hl hmid
    obtain ⟨hwrites', hsame'⟩ := ih hlater (hl.executeChunk hk hmid) he
    exact ⟨hwrites.append hwrites', fun table hne => (hsame' table hne).trans (hsame table hne)⟩

end Schema

/-- The parameters that a writer makes of a row name all columns it writes. -/
theorem Writer.names_params (s : Schema) (batch : String) (n : Nat) {row : List Value}
    (hrow : row.length = s.columns.length) : s.Names (params s batch n row) := by
  have hcells : ∀ c ∈ s.columns, (Keyed.get? c (Keyed.ofPairs (s.columns.zip row))).isSome := by
    intro c hc
    have hkeys : Keyed.keys (s.columns.zip row) = s.columns := List.map_fst_zip (Nat.le_of_eq hrow.symm)
    rw [Keyed.get?_ofPairs, ← Keyed.mem_keys_iff, Keyed.keys, List.map_reverse, List.mem_reverse]
    change c ∈ Keyed.keys (s.columns.zip row)
    rw [hkeys]
    exact hc
  intro c hc
  simp only [Schema.writeColumns, params] at hc ⊢
  split
  case isTrue hs =>
    rw [if_pos hs] at hc
    rw [Keyed.get?_put]
    split
    · rfl
    · rename_i hne
      exact hcells c ((List.mem_append.1 hc).resolve_right fun hin => hne (List.mem_singleton.1 hin))
  case isFalse hs =>
    rw [if_neg hs] at hc
    exact hcells c hc

namespace Schema

/-- A schema over a known table has one statement for both dialects. It writes the written columns, each once and in the
order of the table; without a target it skips the rows that clash, and with the conflict keys as its target it sets the
written columns beside them, the time of change last and only if it is to be renewed. So of the rows that are stored, a
run of chunks changes nothing else, and it leaves them in their places. By `Schema.targets_of_builtin` it applies to
every built-in schema. -/
theorem upsert_changes_what_is_written_beside_the_key {s : Schema} {t : Table} (h : s.Targets t) :
    ∃ i : Insert, i.table = t ∧ (∀ name dialect, Dialect.ofName? name = some dialect → s.insert name = .ok i) ∧
      t.Lists (· ∈ s.writeColumns) i.columns ∧
      (i.columns ≠ [] → ∀ dialect, i.head dialect =
        "INSERT INTO " ++ Identifier.written dialect t.name ++ " (" ++ Identifier.list dialect i.columns ++ ")") ∧
      (s.policy = .ignore → i.conflict = .ignore ∧ ∀ dialect, i.tail dialect = "ON CONFLICT DO NOTHING") ∧
      (s.policy = .update → ∃ set, t.Lists (fun c => c ∈ s.writeColumns ∧ c ∉ s.conflictKeys) set ∧
        i.conflict = .update s.conflictKeys set s.touchUpdated ∧
        ∀ dialect, i.tail dialect =
          "ON CONFLICT (" ++ Identifier.list dialect s.conflictKeys ++ ") DO UPDATE SET " ++
            ", ".intercalate ((set.map fun c =>
                Identifier.written dialect c ++ " = excluded." ++ Identifier.written dialect c) ++
              if s.touchUpdated then ["updated_at = " ++ Insert.clock dialect] else [])) ∧
      (∀ c ∈ t.columnNames, Identifier.written .postgresql c = Identifier.written .sqlite c) ∧
      ∀ (chunks : List (List Params)) (store store' : Store), (∀ ps ∈ chunks, ∀ p ∈ ps, s.Names p) → store.Laid →
        store.executeChunks (chunks.map (⟨i, ·⟩)) = .ok store' →
        s.Writes t chunks.flatten (store.rows s.table) (store'.rows s.table) ∧
        List.Forall₂ (s.Spares t) (store.rows s.table) ((store'.rows s.table).take (store.rows s.table).length) ∧
        ∀ table, table ≠ s.table → store'.rows table = store.rows table := by
  have hname : t.name = s.table := Catalog.table?_name h.known
  obtain ⟨conflict, hconflict⟩ : ∃ conflict, s.conflict t = .ok conflict := by
    rcases h.conflict_eq with ⟨-, hc⟩ | ⟨-, set, -, hc⟩
    · exact ⟨_, hc⟩
    · exact ⟨_, hc⟩
  refine ⟨⟨t, t.columnNames.filter (s.writeColumns.contains ·), conflict⟩, rfl, ?stated, h.lists_written, ?head, ?ignore,
    ?update, ?alike, ?rows⟩
  case stated => exact fun _ _ hd => h.insert_eq hconflict hd
  case head =>
    intro hne dialect
    simp only [Insert.head]
    rw [if_neg hne]
    simp only [String.append_assoc]
  case ignore =>
    intro hp
    rcases h.conflict_eq with ⟨-, hc⟩ | ⟨hu, -⟩
    · obtain rfl : Conflict.ignore = conflict := Except.ok.inj (hc.symm.trans hconflict)
      have hpercent : '%' ∉ "ON CONFLICT DO NOTHING".toList := by decide
      exact ⟨rfl, Insert.tail_eq_namedTail hpercent⟩
    · rw [hp] at hu
      cases hu
  case update =>
    intro hp
    rcases h.conflict_eq with ⟨hi, -⟩ | ⟨-, set, hset, hc⟩
    · rw [hp] at hi
      cases hi
    · obtain rfl := Except.ok.inj (hc.symm.trans hconflict)
      have hknown : ∀ c ∈ set, c ∈ t.columnNames := fun c hc => hset.ordered.subset hc
      exact ⟨set, hset, rfl, Insert.tail_update h.mem (fun c hc => (h.keyed c hc).1) hknown _ _⟩
  case alike => exact fun c hc => (Catalog.written_columns h.mem hc .postgresql).1
  case rows =>
    intro chunks store store' hnames hl he
    have hi : s.insert "sqlite" = .ok ⟨t, t.columnNames.filter (s.writeColumns.contains ·), conflict⟩ :=
      h.insert_eq hconflict rfl
    obtain ⟨hwrites, hsame⟩ := h.writes_executeChunks hi hnames hl he
    rw [hname] at hwrites hsame
    exact ⟨hwrites, hwrites.spares, hsame⟩

/-- Every built-in schema targets its table. -/
theorem targets_of_builtin {s : Schema} (hs : s ∈ Registry.schemas) : ∃ t, s.Targets t := by
  obtain ⟨t, conflict, ht, -, hf⟩ := Registry.fits_of_mem hs
  have hclock : ∀ s ∈ Registry.schemas, Column.updatedAt.name ∉ s.writeColumns := by decide +kernel
  have hwritten : ∀ c ∈ s.writeColumns, c ∈ t.columnNames ∧ c ≠ Column.id.name ∧ c ≠ Column.updatedAt.name := by
    intro c hc
    obtain ⟨d, hd⟩ := hf.column?_of_written hc
    obtain ⟨hm, rfl⟩ := Table.mem_of_column? hd
    exact ⟨List.mem_map_of_mem hm, fun e => hf.id_not_written (e ▸ hc), fun e => hclock s hs (e ▸ hc)⟩
  have htouched : ∀ s ∈ Registry.schemas, s.policy = .update → s.touchUpdated = true := by decide +kernel
  exact ⟨t, ht, hwritten, fun c hc => hwritten c (hf.keyed c hc).1, fun hp => .inl (htouched s hs hp)⟩

/-- Close prices that replace those already known, with one column twice and the key in an order of its own. -/
def closePrices : Schema where
  kind := .indicator
  table := "indicators"
  fields := [⟨"close_price", .float, true, none⟩, ⟨"timestamp", .timestamp, true, none⟩,
    ⟨"symbol", .string, true, none⟩, ⟨"close_price", .float, true, some "close"⟩]
  policy := .update
  conflictKeys := ["timestamp", "symbol"]
  expansion := .scalar
  syntheticKey := false
  touchUpdated := true

/-- The parameters of a close price at a fixed time. -/
def closeAt (price : Int) : Params :=
  Writer.params closePrices "b" 0 [.int price, .moment ⟨⟨2024, 1, 1, 0, 0, 0, 0⟩, none⟩, .text "A", .int price]

theorem targets_closePrices : closePrices.Targets Catalog.indicatorsTable := by
  constructor
  case known => decide +kernel
  case written => decide +kernel
  case keyed => decide +kernel
  case something => exact fun _ => .inl rfl

/-- The statement of close prices. -/
def closeStatement : Insert :=
  ⟨Catalog.indicatorsTable, ["symbol", "timestamp", "close_price"],
    .update ["timestamp", "symbol"] ["close_price"] true⟩

/-- What a table shows of close prices: the number and the price of each row. -/
def shownPrices (store : Store) : List (Cell × Cell) :=
  (store.rows "indicators").map fun r => (r.cell Column.id.name, r.cell "close_price")

/-- A close price is replaced, under the number that it has. -/
theorem upsert_changes_what_is_written_beside_the_key_of_a_close_price :
    ∃ before after, closePrices.insert "sqlite" = .ok closeStatement ∧
      Store.empty.executeChunks [⟨closeStatement, [closeAt 10]⟩] = .ok before ∧
      before.executeChunks [⟨closeStatement, [closeAt 11]⟩] = .ok after ∧
      shownPrices before = [(.integer 1, Binding.double (Binary64.ofInt 10))] ∧
      shownPrices after = [(.integer 1, Binding.double (Binary64.ofInt 11))] ∧
      closePrices.Writes Catalog.indicatorsTable [closeAt 11] (before.rows "indicators") (after.rows "indicators") ∧
      List.Forall₂ (closePrices.Spares Catalog.indicatorsTable) (before.rows "indicators")
        ((after.rows "indicators").take (before.rows "indicators").length) := by
  obtain ⟨i, htable, hstated, -, -, -, -, -, hrows⟩ := upsert_changes_what_is_written_beside_the_key targets_closePrices
  have hi := hstated "sqlite" .sqlite rfl
  have hconcrete : (closePrices.insert "sqlite").toOption = some closeStatement := by decide +kernel
  obtain rfl := Except.ok.inj (hi.symm.trans (eq_ok_of_toOption hconcrete))
  have hruns : ((Store.empty.executeChunk ⟨closeStatement, [closeAt 10]⟩).toOption.bind fun before =>
      (before.executeChunk ⟨closeStatement, [closeAt 11]⟩).toOption.map fun after =>
        (shownPrices before, shownPrices after)) =
      some ([(.integer 1, Binding.double (Binary64.ofInt 10))], [(.integer 1, Binding.double (Binary64.ofInt 11))]) := by
    decide +kernel
  obtain ⟨before, hfirst, hsecond⟩ := Option.bind_eq_some_iff.1 hruns
  obtain ⟨after, hafter, hshown⟩ := Option.map_eq_some_iff.1 hsecond
  obtain ⟨hbefore10, hafter11⟩ := Prod.mk.inj hshown
  have hfirst := eq_ok_of_toOption hfirst
  have hafter := eq_ok_of_toOption hafter
  have hlaid : before.Laid := Store.laid_empty.executeChunk (table_mem_of_insert hi) hfirst
  have hnames : ∀ ps ∈ [[closeAt 11]], ∀ p ∈ ps, closePrices.Names p := by
    rw [List.forall_mem_singleton, List.forall_mem_singleton]
    exact Writer.names_params closePrices "b" 0 rfl
  rw [← Store.executeChunks_single] at hfirst hafter
  obtain ⟨hwrites, hspares, -⟩ := hrows [[closeAt 11]] before after hnames hlaid hafter
  exact ⟨before, after, hi, hfirst, hafter, hbefore10, hafter11, hwrites, hspares⟩

end Schema

end FeedLedger
