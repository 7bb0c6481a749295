import FeedLedger.Proofs.Chunk
import FeedLedger.Ledger.Basic

namespace FeedLedger

theorem Schema.table_of_insert {s : Schema} {dialect : String} {i : Insert} (h : s.insert dialect = .ok i) :
    i.table.name = s.table := by
  obtain ⟨t, conflict, ht, -, rfl⟩ := insert_eq_ok h
  exact Catalog.table?_name ht

theorem eq_ok_of_toOption {ε α : Type} {e : Except ε α} {a : α} (h : e.toOption = some a) : e = .ok a := by
  cases e with
  | error f => cases h
  | ok b => exact congrArg Except.ok (Option.some.inj h)

namespace Batch

def validRecords (schemas : String → Option Schema) (records : List Record) : List ValidRecord :=
  records.filterMap fun r => (r.validate (schemas r.table)).toOption

theorem mem_validRecords {schemas : String → Option Schema} {records : List Record} {v : ValidRecord} :
    v ∈ validRecords schemas records ↔ ∃ r ∈ records, r.validate (schemas r.table) = .ok v := by
  have htoOption (e : Except Malformed ValidRecord) : e.toOption = some v ↔ e = .ok v :=
    ⟨eq_ok_of_toOption, fun h => congrArg Except.toOption h⟩
  simp only [validRecords, List.mem_filterMap, htoOption]

/-- The rows of valid records for a table. -/
def rowsOf (table : String) (valid : List ValidRecord) : List (List Value) :=
  (valid.filter (·.schema.table = table)).flatMap (·.rows)

/-- The first of the valid records for a table. Its schema lays out the rows of all of them. -/
def firstOf (table : String) (valid : List ValidRecord) : Option ValidRecord :=
  valid.find? (·.schema.table = table)

/-- The parameters that a batch hands to the store for a table. -/
def handed (batch table : String) (valid : List ValidRecord) : List Params :=
  match firstOf table valid with
  | none => []
  | some v => Writer.paramsFrom v.schema batch 0 (rowsOf table valid)

/-- The rows of the chunks for a table. -/
def sent (table : String) (chunks : List Chunk) : List Params :=
  (chunks.filter (·.table = table)).flatMap (·.rows)

theorem sent_append (table : String) (first rest : List Chunk) :
    sent table (first ++ rest) = sent table first ++ sent table rest := by
  simp [sent]

theorem sent_self (i : Insert) (chunks : List (List Params)) :
    sent i.table.name (chunks.map fun k => ⟨i, k⟩) = chunks.flatten := by
  induction chunks with
  | nil => rfl
  | cons k r ih =>
    simp only [sent, List.map_cons, List.flatten_cons] at ih ⊢
    rw [List.filter_cons_of_pos (by simp [Chunk.table]), List.flatMap_cons, ih]

theorem sent_ne {table : String} {i : Insert} (h : i.table.name ≠ table) (chunks : List (List Params)) :
    sent table (chunks.map fun k => ⟨i, k⟩) = [] := by
  simp [sent, Chunk.table, h]

theorem mem_sent {table : String} {chunks : List Chunk} {p : Params} :
    p ∈ sent table chunks ↔ ∃ k ∈ chunks, k.table = table ∧ p ∈ k.rows := by
  simp [sent, and_assoc]

theorem rowsOf_concat (table : String) (valid : List ValidRecord) (v : ValidRecord) :
    rowsOf table (valid ++ [v]) = rowsOf table valid ++ if v.schema.table = table then v.rows else [] := by
  by_cases h : v.schema.table = table <;> simp [rowsOf, h]

theorem firstOf_concat (table : String) (valid : List ValidRecord) (v : ValidRecord) :
    firstOf table (valid ++ [v]) = (firstOf table valid).or (if v.schema.table = table then some v else none) := by
  by_cases h : v.schema.table = table <;> simp [firstOf, h]

theorem table_of_firstOf {table : String} {valid : List ValidRecord} {v : ValidRecord}
    (h : firstOf table valid = some v) : v.schema.table = table := by
  simpa using List.find?_some h

theorem mem_of_firstOf {table : String} {valid : List ValidRecord} {v : ValidRecord}
    (h : firstOf table valid = some v) : v ∈ valid := List.mem_of_find?_eq_some h

theorem rowsOf_of_firstOf_eq_none {table : String} {valid : List ValidRecord} (h : firstOf table valid = none) :
    rowsOf table valid = [] := by
  have hn : valid.filter (·.schema.table = table) = [] := by
    simpa [firstOf, List.filter_eq_nil_iff] using h
  simp [rowsOf, hn]

theorem length_handed (batch table : String) (valid : List ValidRecord) :
    (handed batch table valid).length = (rowsOf table valid).length := by
  simp only [handed]
  split
  · rename_i h
    simp [rowsOf_of_firstOf_eq_none h]
  · exact Writer.length_paramsFrom _ _ _ _

/-- What later records add stands behind what was handed over before. -/
theorem handed_grows (batch table : String) (valid more : List ValidRecord) :
    handed batch table valid <+: handed batch table (valid ++ more) := by
  simp only [handed]
  cases h : firstOf table valid with
  | none => simp
  | some v =>
    have hf : firstOf table (valid ++ more) = some v := by
      simp only [firstOf] at h ⊢
      rw [List.find?_append, h, Option.some_or]
    have hr : rowsOf table (valid ++ more) = rowsOf table valid ++ rowsOf table more := by simp [rowsOf]
    simp only [hf, hr, Writer.paramsFrom_append]
    exact List.prefix_append _ _

/-- How the writer of a table stands after valid records and the chunks sent for them. -/
structure Serves (batch : String) (valid : List ValidRecord) (chunks : List Chunk) (table : String)
    (w : Writer) : Prop where
  first : ∃ v, firstOf table valid = some v ∧ w.schema = v.schema ∧ v.schema.insert dialect = .ok w.statement
  named : w.batch = batch
  written : w.rowsWritten = (sent table chunks).length
  held : sent table chunks ++ w.pending = handed batch table valid

theorem Serves.ordinal {batch : String} {valid : List ValidRecord} {chunks : List Chunk} {table : String}
    {w : Writer} (h : Serves batch valid chunks table w) : w.ordinal = (rowsOf table valid).length := by
  have hl := congrArg List.length h.held
  rw [List.length_append, length_handed] at hl
  rw [Writer.ordinal, h.written, hl]

theorem Serves.table {batch : String} {valid : List ValidRecord} {chunks : List Chunk} {table : String}
    {w : Writer} (h : Serves batch valid chunks table w) : w.statement.table.name = table := by
  obtain ⟨v, hv, -, hi⟩ := h.first
  rw [Schema.table_of_insert hi, table_of_firstOf hv]

/-- How a batch stands after valid records, with the chunks executed so far. -/
structure Standing (batch : String) (before : Store) (valid : List ValidRecord) (chunks : List Chunk)
    (b : Batch) : Prop where
  executed : before.executeChunks chunks = .ok b.work.store
  filled : ∀ k ∈ chunks, k.rows ≠ []
  placed : ∀ k ∈ chunks, ∃ w, Keyed.get? k.table b.writers = some w ∧ w.statement = k.statement
  nodup : (Keyed.keys b.writers).Nodup
  serves : ∀ table w, Keyed.get? table b.writers = some w → Serves batch valid chunks table w
  unused : ∀ table, Keyed.get? table b.writers = none → firstOf table valid = none
  counted : Ledger.total (b.writers.map fun p => (p.1, p.2.ordinal)) = (valid.flatMap (·.rows)).length

theorem standing_start (batch : String) (before : Store) (inserts : List String) :
    Standing batch before [] [] ⟨⟨before, inserts, []⟩, [], []⟩ where
  executed := rfl
  filled := by simp
  placed := by simp
  nodup := by simp [Keyed.keys]
  serves := by simp
  unused := by simp [firstOf]
  counted := rfl

theorem Standing.sent_eq_nil {batch : String} {before : Store} {valid : List ValidRecord} {chunks : List Chunk}
    {b : Batch} (h : Standing batch before valid chunks b) {table : String}
    (hn : Keyed.get? table b.writers = none) : sent table chunks = [] := by
  have hf : chunks.filter (·.table = table) = [] := by
    rw [List.filter_eq_nil_iff]
    intro k hk
    obtain ⟨w, hw, -⟩ := h.placed k hk
    intro ht
    rw [show k.table = table by simpa using ht, hn] at hw
    cases hw
  simp [sent, hf]

/-- How the writer stands that a valid record is handed to. It has the schema of the first record for its table. -/
structure Chosen (batch : String) (valid : List ValidRecord) (chunks : List Chunk) (b : Batch) (v : ValidRecord)
    (w : Writer) : Prop where
  first : ∃ v₀, firstOf v.schema.table (valid ++ [v]) = some v₀ ∧ w.schema = v₀.schema ∧
    v₀.schema.insert dialect = .ok w.statement
  named : w.batch = batch
  written : w.rowsWritten = (sent v.schema.table chunks).length
  ordinal : w.ordinal = (rowsOf v.schema.table valid).length
  held : sent v.schema.table chunks ++ w.pending =
    Writer.paramsFrom w.schema w.batch 0 (rowsOf v.schema.table valid)
  counted : w.ordinal = ((Keyed.get? v.schema.table b.writers).map (·.ordinal)).getD 0
  kept : ∀ u, Keyed.get? v.schema.table b.writers = some u → u = w

section

variable {batch : String} {before : Store} {valid : List ValidRecord} {chunks : List Chunk} {b : Batch}
  {v : ValidRecord} {w : Writer}

theorem Standing.chosen_found (h : Standing batch before valid chunks b)
    (hw : Keyed.get? v.schema.table b.writers = some w) : Chosen batch valid chunks b v w := by
  have hs := h.serves _ _ hw
  obtain ⟨v₀, hv, hschema, hi⟩ := hs.first
  constructor
  case first =>
    refine ⟨v₀, ?_, hschema, hi⟩
    rw [firstOf_concat, hv, Option.some_or]
  case named => exact hs.named
  case written => exact hs.written
  case ordinal => exact hs.ordinal
  case held => rw [hs.held, hs.named, handed, hv, hschema]
  case counted => rw [hw, Option.map_some, Option.getD_some]
  case kept =>
    intro u hu
    exact Option.some.inj (hu.symm.trans hw)

theorem Standing.chosen_made (h : Standing batch before valid chunks b)
    (hnone : Keyed.get? v.schema.table b.writers = none) {chunkSize : Int}
    (hw : Writer.make v.schema dialect chunkSize batch = .ok w) : Chosen batch valid chunks b v w := by
  have hf := h.unused _ hnone
  have hsent := h.sent_eq_nil hnone
  have hrows := rowsOf_of_firstOf_eq_none hf
  simp only [Writer.make] at hw
  split at hw
  · cases hw
  cases hi : v.schema.insert dialect with
  | error f =>
    rw [hi] at hw
    cases hw
  | ok i =>
    rw [hi] at hw
    cases hw
    constructor
    case first =>
      refine ⟨v, ?_, rfl, hi⟩
      rw [firstOf_concat, hf, if_pos rfl, Option.none_or]
    case named => rfl
    case written => rw [hsent, List.length_nil]
    case ordinal => rw [hrows, List.length_nil, Writer.ordinal, List.length_nil]
    case held => rw [hsent, hrows, Writer.paramsFrom, List.append_nil]
    case counted => rw [hnone, Option.map_none, Option.getD_none, Writer.ordinal, List.length_nil]
    case kept =>
      intro u hu
      rw [hnone] at hu
      cases hu

theorem Standing.writerFor {c : Coordinator} {o : BatchOrigin}
    (h : Standing (IngestKey.batchName o.stream o.offset) before valid chunks b)
    (hw : writerFor c o b v.schema = .ok w) : Chosen (IngestKey.batchName o.stream o.offset) valid chunks b v w := by
  simp only [Batch.writerFor] at hw
  split at hw
  · rename_i u hu
    cases hw
    exact h.chosen_found hu
  · rename_i hu
    exact h.chosen_made hu hw

theorem Chosen.table (h : Chosen batch valid chunks b v w) : w.statement.table.name = v.schema.table := by
  obtain ⟨v₀, hfirst, -, hi⟩ := h.first
  rw [Schema.table_of_insert hi, table_of_firstOf hfirst]

/-- What was sent, what is pending and what the record adds are handed over in this order. -/
theorem Chosen.hands (h : Chosen batch valid chunks b v w) :
    sent v.schema.table chunks ++ (w.pending ++ w.paramsOf v.rows) = handed batch v.schema.table (valid ++ [v]) := by
  obtain ⟨v₀, hfirst, hschema, -⟩ := h.first
  rw [← List.append_assoc, h.held, handed, hfirst, rowsOf_concat, if_pos rfl]
  simp only
  rw [Writer.paramsFrom_append, Writer.paramsOf, ← hschema, h.named, h.ordinal, Nat.zero_add]

theorem Chosen.serves (h : Chosen batch valid chunks b v w) {w' : Writer} {s t : Store}
    {taken : List (List Params)} (ht : w.Took s v.rows taken w' t) :
    Serves batch (valid ++ [v]) (chunks ++ taken.map fun k => ⟨w.statement, k⟩) v.schema.table w' := by
  obtain ⟨v₀, hfirst, hschema, hi⟩ := h.first
  have hsent : sent v.schema.table (taken.map fun k => ⟨w.statement, k⟩) = taken.flatten := by
    rw [← h.table]
    exact sent_self w.statement taken
  constructor
  case first => exact ⟨v₀, hfirst, ht.schema.trans hschema, by rw [ht.statement]; exact hi⟩
  case named => exact ht.batch.trans h.named
  case written => rw [ht.written, h.written, sent_append, hsent, List.length_append]
  case held => rw [sent_append, hsent, List.append_assoc, ht.taken, h.hands]

end

end Batch

theorem Ledger.total_put {α : Type} (f : α → Nat) (key : String) (a : α) (l : List (String × α)) :
    total ((Keyed.put key a l).map fun p => (p.1, f p.2)) + ((Keyed.get? key l).map f).getD 0 =
      total (l.map fun p => (p.1, f p.2)) + f a := by
  induction l with
  | nil => simp [Keyed.put, total]
  | cons p r ih =>
    obtain ⟨k, b⟩ := p
    by_cases h : k = key
    · simp only [Keyed.put, Keyed.get?, h, if_true, List.map_cons, total, Option.map_some, Option.getD_some]
      omega
    · simp only [Keyed.put, Keyed.get?, h, if_false, List.map_cons, total]
      omega

end FeedLedger
