import FeedLedger.Proofs.Handed
import FeedLedger.Proofs.Keyed

namespace FeedLedger.Batch

section

variable (c : Coordinator) (outages : Outages) (o : BatchOrigin)

/-- The chunks that a batch offers to the store when it writes a valid record, up to one that fails. -/
def offeredOf (v : ValidRecord) (b : Batch) : List Chunk :=
  match writerFor c o b v.schema with
  | .error _ => []
  | .ok w => (Writer.offered outages v.rows (w, b.work)).map fun rows => ⟨w.statement, rows⟩

def offeredFor (r : Record) (b : Batch) : List Chunk :=
  match r.validate (c.schemas r.table) with
  | .error _ => []
  | .ok v => offeredOf c outages o v b

def offeredForAll : List (Except Failure Record) → Batch → List Chunk
  | [], _ | .error _ :: _, _ => []
  | .ok r :: rest, b =>
    offeredFor c outages o r b ++
      match writeRecord c outages o r b with
      | .ok _ b => offeredForAll rest b
      | .error _ _ => []

/-- The chunks that flushing writers offers to the store. -/
def offeredAtEnd : List (String × Writer) → Work → List Chunk
  | [], _ => []
  | (_, w) :: rest, k =>
    (if w.pending = [] then [] else [⟨w.statement, w.pending⟩]) ++
      match Writer.flush (Work.send outages) (w, k) with
      | .ok _ (_, k) => offeredAtEnd rest k
      | .error _ _ => []

/-- All chunks that a batch offers to the store, in order, up to one that fails. -/
def offered (records : List (Except Failure Record)) (b : Batch) : List Chunk :=
  offeredForAll c outages o records b ++
    match writeRecords c outages o records b with
    | .ok _ b => offeredAtEnd outages b.writers b.work
    | .error _ _ => []

end

variable {c : Coordinator} {outages : Outages} {o : BatchOrigin} {before : Store} {valid : List ValidRecord}
  {chunks : List Chunk} {b b' : Batch} {v : ValidRecord}

theorem Serves.frame {batch table : String} {w : Writer} (h : Serves batch valid chunks table w)
    (hv : v.schema.table ≠ table) {i : Insert} (hi : i.table.name ≠ table) (more : List (List Params)) :
    Serves batch (valid ++ [v]) (chunks ++ more.map fun k => ⟨i, k⟩) table w := by
  have hf : firstOf table (valid ++ [v]) = firstOf table valid := by
    rw [firstOf_concat, if_neg hv, Option.or_none]
  have hr : rowsOf table (valid ++ [v]) = rowsOf table valid := by
    rw [rowsOf_concat, if_neg hv, List.append_nil]
  have hs : sent table (chunks ++ more.map fun k => ⟨i, k⟩) = sent table chunks := by
    rw [sent_append, sent_ne hi, List.append_nil]
  constructor
  · rw [hf]
    exact h.first
  · exact h.named
  · rw [hs]
    exact h.written
  · rw [hs, h.held, handed, handed, hf, hr]

theorem Standing.writeValid (h : Standing (IngestKey.batchName o.stream o.offset) before valid chunks b)
    (hw : Batch.writeValid c outages o v b = .ok () b') :
    Standing (IngestKey.batchName o.stream o.offset) before (valid ++ [v]) (chunks ++ offeredOf c outages o v b)
      b' := by
  simp only [Batch.writeValid] at hw
  split at hw
  · cases hw
  rename_i w hfor
  split at hw
  swap
  · cases hw
  rename_i w' work he
  cases hw
  have hchosen := h.writerFor hfor
  have ht := Writer.took_extend he
  simp only [offeredOf, hfor]
  generalize Writer.offered outages v.rows (w, b.work) = taken at ht ⊢
  constructor
  case executed =>
    rw [Store.executeChunks_append h.executed]
    exact ht.executed
  case filled =>
    intro k hk
    rcases List.mem_append.1 hk with hk | hk
    · exact h.filled k hk
    · obtain ⟨rows, hrows, rfl⟩ := List.mem_map.1 hk
      exact ht.filled rows hrows
  case placed =>
    intro k hk
    rcases List.mem_append.1 hk with hk | hk
    · obtain ⟨u, hu, hus⟩ := h.placed k hk
      by_cases hkt : k.table = v.schema.table
      · rw [hkt] at hu ⊢
        refine ⟨w', Keyed.get?_put_self _ _ _, ?_⟩
        rw [ht.statement, ← hus, hchosen.kept u hu]
      · exact ⟨u, by rw [Keyed.get?_put_ne hkt]; exact hu, hus⟩
    · obtain ⟨rows, hrows, rfl⟩ := List.mem_map.1 hk
      refine ⟨w', ?_, ht.statement⟩
      rw [Chunk.table, hchosen.table]
      exact Keyed.get?_put_self _ _ _
  case nodup =>
    exact Keyed.nodup_keys_put h.nodup _ _
  case serves =>
    intro table u hu
    by_cases hT : table = v.schema.table
    · subst hT
      rw [Keyed.get?_put_self] at hu
      cases hu
      exact hchosen.serves ht
    · rw [Keyed.get?_put_ne hT] at hu
      exact (h.serves table u hu).frame (Ne.symm hT) (by rw [hchosen.table]; exact Ne.symm hT) taken
  case unused =>
    intro table hn
    by_cases hT : table = v.schema.table
    · rw [hT, Keyed.get?_put_self] at hn
      cases hn
    · rw [Keyed.get?_put_ne hT] at hn
      rw [firstOf_concat, h.unused table hn, if_neg (Ne.symm hT), Option.or_none]
  case counted =>
    have htotal := Ledger.total_put (fun u : Writer => u.ordinal) v.schema.table w' b.writers
    rw [h.counted, ← hchosen.counted, ht.ordinal] at htotal
    simp only [List.flatMap_append, List.length_append, List.flatMap_singleton]
    omega

theorem Standing.leaveOut (h : Standing (IngestKey.batchName o.stream o.offset) before valid chunks b)
    (m : Malformed) : Standing (IngestKey.batchName o.stream o.offset) before valid chunks (leaveOut o m b) :=
  ⟨h.executed, h.filled, h.placed, h.nodup, h.serves, h.unused, h.counted⟩

theorem validRecords_cons (schemas : String → Option Schema) (r : Record) (rest : List Record) :
    validRecords schemas (r :: rest) = validRecords schemas [r] ++ validRecords schemas rest := by
  simp only [validRecords, List.filterMap_cons, List.filterMap_nil]
  cases (r.validate (schemas r.table)).toOption <;> rfl

theorem Standing.writeRecord (h : Standing (IngestKey.batchName o.stream o.offset) before valid chunks b)
    {r : Record} (hw : Batch.writeRecord c outages o r b = .ok () b') :
    Standing (IngestKey.batchName o.stream o.offset) before (valid ++ validRecords c.schemas [r])
      (chunks ++ offeredFor c outages o r b) b' := by
  simp only [Batch.writeRecord] at hw
  split at hw
  · rename_i m hm
    cases hw
    simpa [validRecords, offeredFor, hm, Except.toOption] using h.leaveOut m
  · rename_i v hv
    simpa [validRecords, offeredFor, hv, Except.toOption] using h.writeValid hw

theorem Standing.writeRecords (h : Standing (IngestKey.batchName o.stream o.offset) before valid chunks b)
    {records : List (Except Failure Record)} (hw : Batch.writeRecords c outages o records b = .ok () b') :
    ∃ rs, records = rs.map .ok ∧
      Standing (IngestKey.batchName o.stream o.offset) before (valid ++ validRecords c.schemas rs)
        (chunks ++ offeredForAll c outages o records b) b' := by
  induction records generalizing valid chunks b with
  | nil =>
    cases hw
    exact ⟨[], rfl, by simpa [validRecords, offeredForAll] using h⟩
  | cons source rest ih =>
    unfold Batch.writeRecords at hw
    cases source with
    | error f => cases hw
    | ok r =>
      simp only at hw
      split at hw
      · rename_i u hr
        obtain ⟨rs, hrs, hs⟩ := ih (h.writeRecord hr) hw
        refine ⟨r :: rs, by rw [hrs, List.map_cons], ?_⟩
        simp only [offeredForAll, hr]
        rw [validRecords_cons, ← List.append_assoc, ← List.append_assoc]
        exact hs
      · cases hw

/-- The chunks that flushing writers sends. -/
def leftover : List (String × Writer) → List Chunk
  | [] => []
  | (_, w) :: rest => (if w.pending = [] then [] else [⟨w.statement, w.pending⟩]) ++ leftover rest

theorem mem_leftover {ws : List (String × Writer)} {k : Chunk} :
    k ∈ leftover ws ↔ ∃ p ∈ ws, p.2.pending ≠ [] ∧ k = ⟨p.2.statement, p.2.pending⟩ := by
  induction ws with
  | nil => simp [leftover]
  | cons p rest ih =>
    obtain ⟨table, w⟩ := p
    by_cases hw : w.pending = [] <;> simp [leftover, hw, ih]

theorem flushWriters_ok {ws ws' : List (String × Writer)} {k k' : Work}
    (h : flushWriters outages ws k = .ok ws' k') :
    offeredAtEnd outages ws k = leftover ws ∧ k.store.executeChunks (leftover ws) = .ok k'.store ∧
      rowsWritten ws' = ws.map fun p => (p.1, p.2.ordinal) := by
  induction ws generalizing k ws' with
  | nil =>
    cases h
    exact ⟨rfl, rfl, rfl⟩
  | cons p rest ih =>
    obtain ⟨table, w⟩ := p
    simp only [flushWriters] at h
    split at h
    · cases h
    rename_i n w' k₁ hf
    split at h
    swap
    · cases h
    rename_i rest' k₂ hr
    cases h
    obtain ⟨hoffered, hexec, hrows⟩ := ih hr
    have hrest : offeredAtEnd outages ((table, w) :: rest) k = leftover ((table, w) :: rest) := by
      simp only [offeredAtEnd, leftover, hf, hoffered]
    rcases Writer.flush_ok hf with ⟨hp, rfl, rfl⟩ | ⟨hp, rfl, he⟩
    · refine ⟨hrest, by simpa [leftover, hp] using hexec, ?_⟩
      rw [List.map_cons, ← hrows]
      simp [rowsWritten, Writer.ordinal, hp]
    · refine ⟨hrest, ?_, ?_⟩
      · rw [leftover, if_neg hp, List.singleton_append, Store.executeChunks, he]
        exact hexec
      · rw [List.map_cons, ← hrows]
        simp [rowsWritten, Writer.ordinal, Writer.settle]

theorem sent_leftover {ws : List (String × Writer)} (hn : (Keyed.keys ws).Nodup)
    (ht : ∀ p ∈ ws, p.2.statement.table.name = p.1) (table : String) :
    sent table (leftover ws) = ((Keyed.get? table ws).map (·.pending)).getD [] := by
  induction ws with
  | nil => rfl
  | cons p rest ih =>
    obtain ⟨name, w⟩ := p
    simp only [Keyed.keys, List.map_cons, List.nodup_cons] at hn
    have hr := ih hn.2 fun q hq => ht q (List.mem_cons_of_mem _ hq)
    have hw : w.statement.table.name = name := ht (name, w) (by simp)
    have hhead : sent table (if w.pending = [] then [] else [⟨w.statement, w.pending⟩]) =
        if name = table then w.pending else [] := by
      by_cases hp : w.pending = []
      · simp [hp, sent]
      · by_cases hT : name = table <;> simp [hp, sent, Chunk.table, hw, hT]
    rw [leftover, sent_append, hhead, hr]
    by_cases hT : name = table
    · subst hT
      have hnone : Keyed.get? name rest = none := Keyed.get?_eq_none_iff.2 hn.1
      simp [Keyed.get?, hnone]
    · simp [Keyed.get?, hT]

/-- The chunks hold the rows of the valid records table by table, each under the statement that belongs to it. -/
structure Covers (batch : String) (valid : List ValidRecord) (chunks : List Chunk) : Prop where
  filled : ∀ k ∈ chunks, k.rows ≠ []
  stated : ∀ k ∈ chunks, ∃ v, firstOf k.table valid = some v ∧ v.schema.insert dialect = .ok k.statement
  rows : ∀ table, sent table chunks = handed batch table valid

/-- What was sent and what is pending are all rows of the valid records. -/
theorem Standing.covers {batch : String} (h : Standing batch before valid chunks b) :
    Covers batch valid (chunks ++ leftover b.writers) := by
  have hserves : ∀ p ∈ b.writers, Serves batch valid chunks p.1 p.2 := by
    intro p hp
    exact h.serves p.1 p.2 (Keyed.get?_of_mem h.nodup hp)
  constructor
  case filled =>
    intro k hk
    rcases List.mem_append.1 hk with hk | hk
    · exact h.filled k hk
    · obtain ⟨p, -, hp, rfl⟩ := mem_leftover.1 hk
      exact hp
  case stated =>
    intro k hk
    rcases List.mem_append.1 hk with hk | hk
    · obtain ⟨w, hw, hs⟩ := h.placed k hk
      obtain ⟨v, hv, -, hi⟩ := (h.serves _ _ hw).first
      exact ⟨v, hv, by rw [← hs]; exact hi⟩
    · obtain ⟨p, hp, -, rfl⟩ := mem_leftover.1 hk
      obtain ⟨v, hv, -, hi⟩ := (hserves p hp).first
      refine ⟨v, ?_, hi⟩
      rw [Chunk.table, (hserves p hp).table]
      exact hv
  case rows =>
    intro table
    rw [sent_append, sent_leftover h.nodup fun p hp => (hserves p hp).table]
    cases hg : Keyed.get? table b.writers with
    | none =>
      rw [h.sent_eq_nil hg, handed, h.unused table hg]
      rfl
    | some w => exact (h.serves table w hg).held

theorem Standing.finish (h : Standing (IngestKey.batchName o.stream o.offset) before valid chunks b)
    (hf : Batch.finish outages o b = .ok () b') :
    before.executeChunks (chunks ++ offeredAtEnd outages b.writers b.work) = .ok b'.work.store ∧
      Covers (IngestKey.batchName o.stream o.offset) valid (chunks ++ offeredAtEnd outages b.writers b.work) ∧
      Ledger.total (rowsWritten b'.writers) = (valid.flatMap (·.rows)).length := by
  simp only [Batch.finish] at hf
  split at hf
  · cases hf
  rename_i ws work hw
  obtain ⟨hoffered, hexec, hrows⟩ := flushWriters_ok hw
  rw [hoffered]
  refine ⟨?_, h.covers, ?_⟩
  · have hstore : b'.work.store = work.store := by
      cases hf
      simp only
      split <;> rfl
    rw [Store.executeChunks_append h.executed, hstore]
    exact hexec
  · have hwriters : b'.writers = ws := by cases hf; rfl
    rw [hwriters, hrows, h.counted]

/-- A batch that is written has handed all rows of its valid records to the store, whatever the chunk size and
whatever outages it came through. -/
theorem write_ok {records : List (Except Failure Record)} {inserts : List String}
    (h : Batch.write c outages o records ⟨⟨before, inserts, []⟩, [], []⟩ = .ok () b) :
    ∃ rs, records = rs.map .ok ∧
      before.executeChunks (offered c outages o records ⟨⟨before, inserts, []⟩, [], []⟩) = .ok b.work.store ∧
      Covers (IngestKey.batchName o.stream o.offset) (validRecords c.schemas rs)
        (offered c outages o records ⟨⟨before, inserts, []⟩, [], []⟩) ∧
      Ledger.total (rowsWritten b.writers) = ((validRecords c.schemas rs).flatMap (·.rows)).length := by
  simp only [Batch.write] at h
  split at h
  · rename_i b₁ hw
    obtain ⟨rs, hrs, hs⟩ := (standing_start _ before inserts).writeRecords hw
    simp only [List.nil_append] at hs
    simp only [offered, hw]
    obtain ⟨hexec, hcovers, htotal⟩ := hs.finish h
    exact ⟨rs, hrs, hexec, hcovers, htotal⟩
  · cases h

/-- Whether a batch is written. -/
def isWritten (c : Coordinator) (outages : Outages) (o : BatchOrigin) (records : List (Except Failure Record))
    (b : Batch) : Bool :=
  match write c outages o records b with
  | .ok _ _ => true
  | .error _ _ => false

theorem write_of_isWritten {records : List (Except Failure Record)} (h : isWritten c outages o records b = true) :
    ∃ b', Batch.write c outages o records b = .ok () b' := by
  simp only [isWritten] at h
  split at h
  · rename_i b' hw
    exact ⟨b', hw⟩
  · cases h

end FeedLedger.Batch
