import FeedLedger.Proofs.Written

namespace FeedLedger.Batch

variable {c : Coordinator} {outages : Outages} {o : BatchOrigin} {before : Store} {valid : List ValidRecord}
  {chunks : List Chunk} {b b' : Batch} {v : ValidRecord}

/-- A chunk of rows that valid records hand over, under the statement of their table. -/
structure Stems (batch : String) (valid : List ValidRecord) (k : Chunk) : Prop where
  filled : k.rows ≠ []
  stated : ∃ v, firstOf k.table valid = some v ∧ v.schema.insert dialect = .ok k.statement
  handed : ∀ p ∈ k.rows, p ∈ Batch.handed batch k.table valid

/-- The chunks hold the first rows of the valid records table by table, each under the statement that belongs to it. -/
structure Begins (batch : String) (valid : List ValidRecord) (chunks : List Chunk) : Prop where
  filled : ∀ k ∈ chunks, k.rows ≠ []
  stated : ∀ k ∈ chunks, ∃ v, firstOf k.table valid = some v ∧ v.schema.insert dialect = .ok k.statement
  rows : ∀ table, sent table chunks <+: handed batch table valid

theorem Begins.stems {batch : String} (h : Begins batch valid chunks) {k : Chunk} (hk : k ∈ chunks) :
    Stems batch valid k where
  filled := h.filled k hk
  stated := h.stated k hk
  handed := by
    intro p hp
    apply (h.rows k.table).subset
    exact mem_sent.2 ⟨k, hk, rfl, hp⟩

theorem Covers.begins {batch : String} {all : List Chunk} (h : Covers batch valid all) (hp : chunks <+: all) :
    Begins batch valid chunks where
  filled := fun k hk => h.filled k (hp.subset hk)
  stated := fun k hk => h.stated k (hp.subset hk)
  rows := by
    intro table
    obtain ⟨rest, rfl⟩ := hp
    rw [← h.rows table, sent_append]
    exact List.prefix_append _ _

theorem Covers.stems {batch : String} (h : Covers batch valid chunks) {k : Chunk} (hk : k ∈ chunks) :
    Stems batch valid k := (h.begins List.prefix_rfl).stems hk

theorem Standing.begins {batch : String} (h : Standing batch before valid chunks b) : Begins batch valid chunks :=
  h.covers.begins (List.prefix_append _ _)

/-- Valid records that come later change nothing about the rows that were offered before. -/
theorem Begins.append {batch : String} (h : Begins batch valid chunks) (more : List ValidRecord) :
    Begins batch (valid ++ more) chunks where
  filled := h.filled
  stated := by
    intro k hk
    obtain ⟨v, hv, hi⟩ := h.stated k hk
    refine ⟨v, ?_, hi⟩
    simp only [firstOf] at hv ⊢
    rw [List.find?_append, hv, Option.some_or]
  rows := fun table => (h.rows table).trans (handed_grows batch table valid more)

/-- The writer of a record goes on with the rows of its table. -/
theorem Chosen.begins {batch : String} {w : Writer} (h : Chosen batch valid chunks b v w)
    (hb : Begins batch valid chunks) {taken : List (List Params)} (hfilled : ∀ rows ∈ taken, rows ≠ [])
    (hp : taken.flatten <+: w.pending ++ w.paramsOf v.rows) :
    Begins batch (valid ++ [v]) (chunks ++ taken.map fun rows => ⟨w.statement, rows⟩) := by
  obtain ⟨v₀, hfirst, -, hi⟩ := h.first
  have hearlier := hb.append [v]
  constructor
  case filled =>
    intro k hk
    rcases List.mem_append.1 hk with hk | hk
    · exact hb.filled k hk
    · obtain ⟨rows, hrows, rfl⟩ := List.mem_map.1 hk
      exact hfilled rows hrows
  case stated =>
    intro k hk
    rcases List.mem_append.1 hk with hk | hk
    · exact hearlier.stated k hk
    · obtain ⟨rows, -, rfl⟩ := List.mem_map.1 hk
      refine ⟨v₀, ?_, hi⟩
      rw [Chunk.table, h.table]
      exact hfirst
  case rows =>
    intro table
    rw [sent_append]
    by_cases hT : v.schema.table = table
    · subst hT
      have hsent : sent v.schema.table (taken.map fun rows => ⟨w.statement, rows⟩) = taken.flatten := by
        rw [← h.table]
        exact sent_self w.statement taken
      rw [hsent, ← h.hands]
      exact (List.prefix_append_right_inj _).2 hp
    · have hne : w.statement.table.name ≠ table := by
        rw [h.table]
        exact hT
      rw [sent_ne hne, List.append_nil]
      exact hearlier.rows table

/-- The records that a source delivers, up to where it fails. -/
def delivered : List (Except Failure Record) → List Record
  | .ok r :: rest => r :: delivered rest
  | _ => []

theorem delivered_map (rs : List Record) : delivered (rs.map .ok) = rs := by
  induction rs with
  | nil => rfl
  | cons r rest ih => rw [List.map_cons, delivered, ih]

/-- What a batch fails at, with the chunk that was not executed if it is one. -/
inductive Fails (c : Coordinator) (outages : Outages) (batch : String) (records : List (Except Failure Record))
    (s : Store) (f : Failure) : Option Chunk → Prop
  | chunk {k : Chunk} (h : s.Stops outages k f) : Fails c outages batch records s f (some k)
  | writer {v : ValidRecord} (hv : v ∈ validRecords c.schemas (delivered records))
      (h : Writer.make v.schema dialect c.chunkSize batch = .error f) : Fails c outages batch records s f none
  | source (h : .error f ∈ records) : Fails c outages batch records s f none

theorem Fails.cons {batch : String} {records : List (Except Failure Record)} {s : Store} {f : Failure}
    {last : Option Chunk} (h : Fails c outages batch records s f last) (r : Record) :
    Fails c outages batch (.ok r :: records) s f last := by
  cases h with
  | chunk h => exact .chunk h
  | source h => exact .source (List.mem_cons_of_mem _ h)
  | writer hv h =>
    refine .writer ?_ h
    rw [delivered, validRecords_cons]
    exact List.mem_append_right _ hv

theorem Standing.writeValid_error (h : Standing (IngestKey.batchName o.stream o.offset) before valid chunks b)
    {f : Failure} (hw : Batch.writeValid c outages o v b = .error f b') :
    (offeredOf c outages o v b = [] ∧ b'.work.store = b.work.store ∧
      Writer.make v.schema dialect c.chunkSize (IngestKey.batchName o.stream o.offset) = .error f) ∨
    ∃ taken last, offeredOf c outages o v b = taken ++ [last] ∧
      before.executeChunks (chunks ++ taken) = .ok b'.work.store ∧ b'.work.store.Stops outages last f ∧
      Begins (IngestKey.batchName o.stream o.offset) (valid ++ [v]) (chunks ++ (taken ++ [last])) := by
  simp only [Batch.writeValid] at hw
  split at hw
  · rename_i g hg
    cases hw
    left
    refine ⟨by simp only [offeredOf, hg], rfl, ?_⟩
    simp only [Batch.writerFor] at hg
    split at hg
    · cases hg
    · exact hg
  rename_i w hfor
  split at hw
  · cases hw
  rename_i g w' work he
  cases hw
  right
  obtain ⟨taken, last, hoffered, hexec, hstops, hfilled, hprefix⟩ := Writer.extend_error he
  have hbegins := (h.writerFor hfor).begins h.begins hfilled hprefix
  rw [List.map_append] at hbegins
  refine ⟨taken.map fun rows => ⟨w.statement, rows⟩, ⟨w.statement, last⟩, ?_, ?_, hstops, hbegins⟩
  · simp only [offeredOf, hfor, hoffered, List.map_append, List.map_cons, List.map_nil]
  · rw [Store.executeChunks_append h.executed]
    exact hexec

theorem Standing.writeRecords_error
    (h : Standing (IngestKey.batchName o.stream o.offset) before valid chunks b)
    {records : List (Except Failure Record)} {f : Failure}
    (hw : Batch.writeRecords c outages o records b = .error f b') :
    ∃ more last, offeredForAll c outages o records b = more ++ last.toList ∧
      before.executeChunks (chunks ++ more) = .ok b'.work.store ∧
      Begins (IngestKey.batchName o.stream o.offset) (valid ++ validRecords c.schemas (delivered records))
        (chunks ++ (more ++ last.toList)) ∧
      Fails c outages (IngestKey.batchName o.stream o.offset) records b'.work.store f last := by
  induction records generalizing valid chunks b with
  | nil => cases hw
  | cons source rest ih =>
    unfold Batch.writeRecords at hw
    cases source with
    | error g =>
      cases hw
      refine ⟨[], none, rfl, ?_, ?_, .source List.mem_cons_self⟩
      · rw [List.append_nil]
        exact h.executed
      · simpa [validRecords, delivered] using h.begins
    | ok r =>
      simp only at hw
      split at hw
      · rename_i hr
        obtain ⟨more, last, hoffered, hexec, hbegins, hfails⟩ := ih (h.writeRecord hr) hw
        refine ⟨offeredFor c outages o r b ++ more, last, ?_, ?_, ?_, hfails.cons r⟩
        · simp only [offeredForAll, hr, hoffered, List.append_assoc]
        · rw [← List.append_assoc]
          exact hexec
        · rw [delivered, validRecords_cons]
          simpa only [List.append_assoc] using hbegins
      · rename_i g b₁ hr
        cases hw
        simp only [Batch.writeRecord] at hr
        split at hr
        · cases hr
        rename_i v hv
        have hone : validRecords c.schemas [r] = [v] := by simp [validRecords, hv, Except.toOption]
        have hfor : offeredForAll c outages o (.ok r :: rest) b = offeredOf c outages o v b := by
          simp only [offeredForAll, Batch.writeRecord, offeredFor, hv, hr, List.append_nil]
        rw [delivered, validRecords_cons, hone, hfor, ← List.append_assoc]
        rcases h.writeValid_error hr with ⟨hnone, hstore, hmake⟩ | ⟨taken, last, hoffered, hexec, hstops, hbegins⟩
        · refine ⟨[], none, hnone, ?_, ?_, .writer ?_ hmake⟩
          · rw [List.append_nil, hstore]
            exact h.executed
          · simpa only [List.append_assoc, Option.toList, List.append_nil] using h.begins.append ([v] ++ _)
          · rw [delivered, validRecords_cons, hone]
            exact List.mem_append_left _ List.mem_cons_self
        · exact ⟨taken, some last, hoffered, hexec, hbegins.append _, .chunk hstops⟩

theorem flushWriters_error {ws : List (String × Writer)} {k k' : Work} {f : Failure}
    (h : flushWriters outages ws k = .error f k') :
    ∃ flushed last, offeredAtEnd outages ws k = flushed ++ [last] ∧
      k.store.executeChunks flushed = .ok k'.store ∧ k'.store.Stops outages last f ∧
      flushed ++ [last] <+: leftover ws := by
  induction ws generalizing k with
  | nil => cases h
  | cons p rest ih =>
    obtain ⟨table, w⟩ := p
    simp only [flushWriters] at h
    split at h
    · rename_i g w' k₁ hf
      cases h
      obtain ⟨hp, hstore, hstops⟩ := Writer.flush_error hf
      refine ⟨[], ⟨w.statement, w.pending⟩, ?_, ?_, ?_, ?_⟩
      · simp [offeredAtEnd, hp, hf]
      · rw [hstore]
        rfl
      · rw [hstore]
        exact hstops
      · simp [leftover, hp]
    rename_i n w' k₁ hf
    split at h
    · cases h
    rename_i g k₂ hr
    cases h
    obtain ⟨flushed, last, hoffered, hexec, hstops, hprefix⟩ := ih hr
    rcases Writer.flush_ok hf with ⟨hp, rfl, rfl⟩ | ⟨hp, rfl, hw⟩
    · refine ⟨flushed, last, ?_, hexec, hstops, ?_⟩
      · simp [offeredAtEnd, hp, hf, hoffered]
      · simpa [leftover, hp] using hprefix
    · refine ⟨⟨w.statement, w.pending⟩ :: flushed, last, ?_, ?_, hstops, ?_⟩
      · simp [offeredAtEnd, hp, hf, hoffered]
      · rw [Store.executeChunks, hw]
        exact hexec
      · rw [leftover, if_neg hp, List.singleton_append, List.cons_append]
        exact List.cons_prefix_cons.2 ⟨rfl, hprefix⟩

/-- A batch fails behind chunks that have been executed. They hold, with the one that has not, the first rows of the
valid records that its source delivered. -/
theorem write_error {records : List (Except Failure Record)} {inserts : List String} {f : Failure}
    (h : Batch.write c outages o records ⟨⟨before, inserts, []⟩, [], []⟩ = .error f b) :
    ∃ executed last,
      offered c outages o records ⟨⟨before, inserts, []⟩, [], []⟩ = executed ++ last.toList ∧
      before.executeChunks executed = .ok b.work.store ∧
      Begins (IngestKey.batchName o.stream o.offset) (validRecords c.schemas (delivered records))
        (executed ++ last.toList) ∧
      Fails c outages (IngestKey.batchName o.stream o.offset) records b.work.store f last := by
  simp only [Batch.write] at h
  split at h
  · rename_i b₁ hw
    obtain ⟨rs, rfl, hs⟩ := (standing_start _ before inserts).writeRecords hw
    simp only [List.nil_append] at hs
    simp only [Batch.finish] at h
    split at h
    · rename_i g work hf
      cases h
      obtain ⟨flushed, last, hoffered, hexec, hstops, hprefix⟩ := flushWriters_error hf
      refine ⟨offeredForAll c outages o (rs.map .ok) ⟨⟨before, inserts, []⟩, [], []⟩ ++ flushed, some last, ?_, ?_, ?_,
        .chunk hstops⟩
      · simp only [offered, hw, hoffered, Option.toList, List.append_assoc]
      · rw [Store.executeChunks_append hs.executed]
        exact hexec
      · rw [delivered_map, List.append_assoc]
        exact hs.covers.begins ((List.prefix_append_right_inj _).2 hprefix)
    · cases h
  · rename_i g b₁ hw
    cases h
    obtain ⟨more, last, hoffered, hexec, hbegins, hfails⟩ := (standing_start _ before inserts).writeRecords_error hw
    simp only [List.nil_append] at hexec hbegins
    refine ⟨more, last, ?_, hexec, hbegins, hfails⟩
    simp only [offered, hw, hoffered, List.append_nil]

end FeedLedger.Batch
