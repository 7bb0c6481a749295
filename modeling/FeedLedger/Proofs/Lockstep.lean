import FeedLedger.Proofs.Attempt

namespace FeedLedger

section

variable {ε σ τ α : Type}

/-- How a computation goes along with another one: both return the same, or both fail with the same. A failure that
breaks the first one off says nothing about the second. -/
inductive Follows (breaks : ε → Prop) (R Q : σ → τ → Prop) : EStateM.Result ε σ α → EStateM.Result ε τ α → Prop
  | ok {a : α} {s : σ} {t : τ} (h : R s t) : Follows breaks R Q (.ok a s) (.ok a t)
  | error {e : ε} {s : σ} {t : τ} (h : Q s t) : Follows breaks R Q (.error e s) (.error e t)
  | broken {e : ε} {s : σ} {y : EStateM.Result ε τ α} (h : breaks e) : Follows breaks R Q (.error e s) y

end

/-- Related stores take a chunk alike: they stay related, or refuse it with the same failure. -/
def Store.Alike (S : Store → Store → Prop) (k : Chunk) : Prop :=
  ∀ s t, S s t →
    (∃ s' t', s.executeChunk k = .ok s' ∧ t.executeChunk k = .ok t' ∧ S s' t') ∨
      ∃ f, s.executeChunk k = .error f ∧ t.executeChunk k = .error f

theorem Store.alike_eq (k : Chunk) : Alike Eq k := by
  rintro s _ rfl
  cases h : s.executeChunk k with
  | error f => exact .inr ⟨f, rfl, rfl⟩
  | ok s' => exact .inl ⟨s', s', rfl, rfl, rfl⟩

/-- Records with malformed ones left out. -/
inductive Sieved (schemas : String → Option Schema) :
    List (Except Failure Record) → List (Except Failure Record) → Prop
  | nil : Sieved schemas [] []
  | keep (source : Except Failure Record) {rest kept : List (Except Failure Record)} (h : Sieved schemas rest kept) :
      Sieved schemas (source :: rest) (source :: kept)
  | leave {r : Record} {m : Malformed} (hm : r.validate (schemas r.table) = .error m)
      {rest kept : List (Except Failure Record)} (h : Sieved schemas rest kept) :
      Sieved schemas (.ok r :: rest) kept

theorem Sieved.refl (schemas : String → Option Schema) (records : List (Except Failure Record)) :
    Sieved schemas records records := by
  induction records with
  | nil => exact .nil
  | cons source rest ih => exact .keep source ih

/-- Works on related stores that have come to the same insert. -/
structure Work.Even (S : Store → Store → Prop) (k k' : Work) : Prop where
  stores : S k.store k'.store
  inserts : k.inserts = k'.inserts

/-- What keeps two batches side by side: an outage strikes both or breaks the first one off, and the chunks of writers
that are fit for their tables are taken alike. -/
structure Lockstep (breaks : Failure → Prop) (S : Store → Store → Prop) (Fit : String → Writer → Prop)
    (c : Coordinator) (outages outages' : Outages) (o : BatchOrigin) : Prop where
  outage : ∀ p, outages.at? p = outages'.at? p ∨ ∃ f, outages.at? p = some f ∧ breaks f ∧ outages'.at? p = none
  /-- A batch that is broken off stays so when the rollback fails, too. -/
  rollback : ∀ f g, breaks f → outages.at? .rollback = some g → breaks g
  chunk : ∀ table w, Fit table w → w.pending ≠ [] → Store.Alike S ⟨w.statement, w.pending⟩
  offset : Store.Alike S (Chunk.offset o.stream o.offset)
  make : ∀ (r : Record) v w, r.validate (c.schemas r.table) = .ok v →
    Writer.make v.schema Batch.dialect c.chunkSize (IngestKey.batchName o.stream o.offset) = .ok w →
      Fit v.schema.table w
  push : ∀ (r : Record) v w row, r.validate (c.schemas r.table) = .ok v → Fit v.schema.table w → row ∈ v.rows →
    Fit v.schema.table (w.push row)
  settle : ∀ table w, Fit table w → Fit table w.settle

namespace Lockstep

variable {breaks : Failure → Prop} {S : Store → Store → Prop} {Fit : String → Writer → Prop} {c : Coordinator}
  {outages outages' : Outages} {o : BatchOrigin} {k k' : Work} {table : String} {w : Writer}

theorem execute (h : Lockstep breaks S Fit c outages outages' o) {i : Insert} {chunk : List Params}
    (hi : Store.Alike S ⟨i, chunk⟩) (he : k.Even S k') :
    Follows breaks (Work.Even S) (Work.Even S) (k.execute outages i chunk) (k'.execute outages' i chunk) := by
  have hchunk := hi k.store k'.store he.stores
  simp only [Store.executeChunk] at hchunk
  simp only [Work.execute, ← he.inserts]
  cases hb : i.bind chunk with
  | error f => exact .error he
  | ok bound =>
    simp only [hb] at hchunk ⊢
    rcases h.outage (.insert i.table.name ((i.table.name :: k.inserts).count i.table.name)) with
      hsame | ⟨f, hf, hbreaks, -⟩
    · rw [hsame]
      cases outages'.at? (.insert i.table.name ((i.table.name :: k.inserts).count i.table.name)) with
      | some f => exact .error ⟨he.stores, rfl⟩
      | none =>
        rcases hchunk with ⟨s, t, hs, ht, hst⟩ | ⟨f, hs, ht⟩
        · rw [hs, ht]
          exact .ok ⟨hst, rfl⟩
        · rw [hs, ht]
          exact .error ⟨he.stores, rfl⟩
    · rw [hf]
      exact .broken hbreaks

theorem send (h : Lockstep breaks S Fit c outages outages' o) (hw : Fit table w) (hp : w.pending ≠ [])
    (he : k.Even S k') :
    Follows breaks (Work.Even S) (Work.Even S) (Work.send outages w w.pending k)
      (Work.send outages' w w.pending k') := by
  have hexec := h.execute (h.chunk table w hw hp) he
  simp only [Work.send]
  generalize k.execute outages w.statement w.pending = x at hexec ⊢
  generalize k'.execute outages' w.statement w.pending = y at hexec ⊢
  cases hexec with
  | ok hr => exact .ok ⟨hr.stores, hr.inserts⟩
  | error hr => exact .error hr
  | broken hb => exact .broken hb

theorem storeOffset (h : Lockstep breaks S Fit c outages outages' o) (he : k.Even S k') :
    Follows breaks (Work.Even S) (Work.Even S) (k.storeOffset outages o.stream o.offset)
      (k'.storeOffset outages' o.stream o.offset) := by
  simp only [Work.storeOffset]
  rcases h.outage .upsert with hsame | ⟨f, hf, hbreaks, -⟩
  · rw [hsame]
    cases outages'.at? .upsert with
    | some f => exact .error he
    | none => exact h.execute h.offset he
  · rw [hf]
    exact .broken hbreaks

/-- The same writer, fit for its table, over works side by side. -/
structure Together (S : Store → Store → Prop) (Fit : String → Writer → Prop) (table : String)
    (x y : Writer × Work) : Prop where
  same : x.1 = y.1
  fit : Fit table x.1
  even : x.2.Even S y.2

theorem flush (h : Lockstep breaks S Fit c outages outages' o) (hw : Fit table w) (he : k.Even S k') :
    Follows breaks (Together S Fit table) (fun x y => x.2.Even S y.2) (Writer.flush (Work.send outages) (w, k))
      (Writer.flush (Work.send outages') (w, k')) := by
  simp only [Writer.flush]
  split
  · exact .ok ⟨rfl, hw, he⟩
  · rename_i hp
    have hsend := h.send hw hp he
    generalize Work.send outages w w.pending k = x at hsend ⊢
    generalize Work.send outages' w w.pending k' = y at hsend ⊢
    cases hsend with
    | ok hr => exact .ok ⟨rfl, h.settle table w hw, hr⟩
    | error hr => exact .error hr
    | broken hb => exact .broken hb

variable {r : Record} {v : ValidRecord}

theorem add (h : Lockstep breaks S Fit c outages outages' o) (hv : r.validate (c.schemas r.table) = .ok v)
    (hw : Fit v.schema.table w) {row : List Value} (hrow : row ∈ v.rows) (he : k.Even S k') :
    Follows breaks (Together S Fit v.schema.table) (fun x y => x.2.Even S y.2)
      (Writer.add (Work.send outages) row (w, k)) (Writer.add (Work.send outages') row (w, k')) := by
  have hpush := h.push r v w row hv hw hrow
  simp only [Writer.add]
  split
  · have hflush := h.flush hpush he
    generalize Writer.flush (Work.send outages) (w.push row, k) = x at hflush ⊢
    generalize Writer.flush (Work.send outages') (w.push row, k') = y at hflush ⊢
    cases hflush with
    | ok hr => exact .ok hr
    | error hr => exact .error hr
    | broken hb => exact .broken hb
  · exact .ok ⟨rfl, hpush, he⟩

theorem extend (h : Lockstep breaks S Fit c outages outages' o) (hv : r.validate (c.schemas r.table) = .ok v)
    (hw : Fit v.schema.table w) {rows : List (List Value)} (hrows : rows ⊆ v.rows) (he : k.Even S k') :
    Follows breaks (Together S Fit v.schema.table) (fun x y => x.2.Even S y.2)
      (Writer.extend (Work.send outages) rows (w, k)) (Writer.extend (Work.send outages') rows (w, k')) := by
  induction rows generalizing w k k' with
  | nil => exact .ok ⟨rfl, hw, he⟩
  | cons row rest ih =>
    obtain ⟨hrow, hrest⟩ := List.cons_subset.1 hrows
    have hadd := h.add hv hw hrow he
    simp only [Writer.extend]
    generalize Writer.add (Work.send outages) row (w, k) = x at hadd ⊢
    generalize Writer.add (Work.send outages') row (w, k') = y at hadd ⊢
    cases hadd with
    | error hr => exact .error hr
    | broken hb => exact .broken hb
    | @ok _ x y hr =>
      obtain ⟨w', k₁⟩ := x
      obtain ⟨_, k₂⟩ := y
      obtain ⟨rfl, hfit, heven⟩ := hr
      exact ih hfit hrest heven

/-- Batches with the same writers, fit for their tables, over works side by side. -/
structure Beside (S : Store → Store → Prop) (Fit : String → Writer → Prop) (b b' : Batch) : Prop where
  writers : b.writers = b'.writers
  fit : ∀ p ∈ b.writers, Fit p.1 p.2
  even : b.work.Even S b'.work

variable {b b' : Batch}

theorem writeValid (h : Lockstep breaks S Fit c outages outages' o) (hv : r.validate (c.schemas r.table) = .ok v)
    (hb : Beside S Fit b b') :
    Follows breaks (Beside S Fit) (fun x y => x.work.Even S y.work) (Batch.writeValid c outages o v b)
      (Batch.writeValid c outages' o v b') := by
  have hsame : Batch.writerFor c o b' v.schema = Batch.writerFor c o b v.schema := by
    rw [Batch.writerFor, Batch.writerFor, hb.writers]
  simp only [Batch.writeValid, hsame]
  cases hw : Batch.writerFor c o b v.schema with
  | error f => exact .error hb.even
  | ok w =>
    have hfit : Fit v.schema.table w := by
      simp only [Batch.writerFor] at hw
      split at hw
      · rename_i u hu
        cases hw
        exact hb.fit _ (Keyed.mem_of_get? hu)
      · exact h.make r v w hv hw
    have hextend := h.extend hv hfit (List.Subset.refl v.rows) hb.even
    simp only
    generalize Writer.extend (Work.send outages) v.rows (w, b.work) = x at hextend ⊢
    generalize Writer.extend (Work.send outages') v.rows (w, b'.work) = y at hextend ⊢
    cases hextend with
    | error hr => exact .error hr
    | broken hb => exact .broken hb
    | @ok _ x y hr =>
      obtain ⟨w', k₁⟩ := x
      obtain ⟨_, k₂⟩ := y
      obtain ⟨rfl, hfit', heven⟩ := hr
      refine .ok ⟨by rw [hb.writers], ?_, heven⟩
      intro p hp
      rcases Keyed.mem_put hp with rfl | hp
      · exact hfit'
      · exact hb.fit p hp

theorem writeRecords (h : Lockstep breaks S Fit c outages outages' o) {records kept : List (Except Failure Record)}
    (hk : Sieved c.schemas records kept) (hb : Beside S Fit b b') :
    Follows breaks (Beside S Fit) (fun x y => x.work.Even S y.work) (Batch.writeRecords c outages o records b)
      (Batch.writeRecords c outages' o kept b') := by
  induction hk generalizing b b' with
  | nil => exact .ok hb
  | @leave r m hm rest kept _ ih =>
    simp only [Batch.writeRecords, Batch.writeRecord, hm]
    exact ih ⟨hb.writers, hb.fit, hb.even.stores, hb.even.inserts⟩
  | @keep source rest kept _ ih =>
    cases source with
    | error f => exact .error hb.even
    | ok r =>
      simp only [Batch.writeRecords, Batch.writeRecord]
      cases hv : r.validate (c.schemas r.table) with
      | error m => exact ih ⟨hb.writers, hb.fit, hb.even.stores, hb.even.inserts⟩
      | ok v =>
        have hone := h.writeValid hv hb
        simp only
        generalize Batch.writeValid c outages o v b = x at hone ⊢
        generalize Batch.writeValid c outages' o v b' = y at hone ⊢
        cases hone with
        | ok hr => exact ih hr
        | error hr => exact .error hr
        | broken hb => exact .broken hb

theorem flushWriters (h : Lockstep breaks S Fit c outages outages' o) {ws : List (String × Writer)}
    (hws : ∀ p ∈ ws, Fit p.1 p.2) (he : k.Even S k') :
    Follows breaks (Work.Even S) (Work.Even S) (Batch.flushWriters outages ws k)
      (Batch.flushWriters outages' ws k') := by
  induction ws generalizing k k' with
  | nil => exact .ok he
  | cons p rest ih =>
    obtain ⟨table, w⟩ := p
    have hflush := h.flush (hws (table, w) List.mem_cons_self) he
    simp only [Batch.flushWriters]
    generalize Writer.flush (Work.send outages) (w, k) = x at hflush ⊢
    generalize Writer.flush (Work.send outages') (w, k') = y at hflush ⊢
    cases hflush with
    | error hr => exact .error hr
    | broken hb => exact .broken hb
    | @ok _ x y hr =>
      obtain ⟨w', k₁⟩ := x
      obtain ⟨_, k₂⟩ := y
      obtain ⟨rfl, -, heven⟩ := hr
      have hrest := ih (fun q hq => hws q (List.mem_cons_of_mem _ hq)) heven
      simp only at hrest ⊢
      generalize Batch.flushWriters outages rest k₁ = x at hrest ⊢
      generalize Batch.flushWriters outages' rest k₂ = y at hrest ⊢
      cases hrest with
      | ok hr => exact .ok hr
      | error hr => exact .error hr
      | broken hb => exact .broken hb

theorem finish (h : Lockstep breaks S Fit c outages outages' o) (hb : Beside S Fit b b') :
    Follows breaks (fun x y => x.writers = y.writers ∧ x.work.Even S y.work) (fun x y => x.work.Even S y.work)
      (Batch.finish outages o b) (Batch.finish outages' o b') := by
  have hflush := h.flushWriters hb.fit hb.even
  simp only [Batch.finish, ← hb.writers]
  generalize Batch.flushWriters outages b.writers b.work = x at hflush ⊢
  generalize Batch.flushWriters outages' b.writers b'.work = y at hflush ⊢
  cases hflush with
  | error hr => exact .error hr
  | broken hb => exact .broken hb
  | ok hr =>
    -- the report on malformed records touches neither the store nor the inserts
    refine .ok ⟨rfl, ?_, ?_⟩
    · simp only
      split <;> split <;> exact hr.stores
    · simp only
      split <;> split <;> exact hr.inserts

theorem write (h : Lockstep breaks S Fit c outages outages' o) {records kept : List (Except Failure Record)}
    (hk : Sieved c.schemas records kept) (hb : Beside S Fit b b') :
    Follows breaks (fun x y => x.writers = y.writers ∧ x.work.Even S y.work) (fun x y => x.work.Even S y.work)
      (Batch.write c outages o records b) (Batch.write c outages' o kept b') := by
  have hrecords := h.writeRecords hk hb
  simp only [Batch.write]
  generalize Batch.writeRecords c outages o records b = x at hrecords ⊢
  generalize Batch.writeRecords c outages' o kept b' = y at hrecords ⊢
  cases hrecords with
  | ok hr => exact h.finish hr
  | error hr => exact .error hr
  | broken hb => exact .broken hb

end Lockstep

/-- Transactions with the same result, on related stores, after the same inserts. -/
structure Settled.Level (S : Store → Store → Prop) (x y : Settled) : Prop where
  result : x.result = y.result
  stores : S x.store y.store
  inserts : x.inserts = y.inserts

namespace Lockstep

variable {breaks : Failure → Prop} {S : Store → Store → Prop} {Fit : String → Writer → Prop} {c : Coordinator}
  {outages outages' : Outages} {o : BatchOrigin} {k k' : Work} {s t : Store}

theorem undone (hs : S s t) (he : k.Even S k') (level : String) :
    S (Settled.undone level s k.store) (Settled.undone level t k'.store) := by
  simp only [Settled.undone]
  split
  · exact he.stores
  · exact hs

theorem rolledBack (h : Lockstep breaks S Fit c outages outages' o) (hs : S s t) (he : k.Even S k')
    (level : String) (phase : BatchPhase) (f : Failure) (malformed malformed' : List (String × Nat)) :
    (∃ g, (Settled.rolledBack outages o level phase f s k malformed).result = .error g ∧ breaks g) ∨
      (Settled.rolledBack outages o level phase f s k malformed).Level S
        (Settled.rolledBack outages' o level phase f t k' malformed') := by
  have hundone : S (Settled.undone level s k.store) (Settled.undone level t k'.store) := undone hs he level
  simp only [Settled.rolledBack]
  rcases h.outage .rollback with hsame | ⟨g, hg, hbreaks, hnone⟩
  · rw [hsame]
    right
    split
    · exact ⟨rfl, hundone, he.inserts⟩
    · exact ⟨rfl, hundone, he.inserts⟩
    · exact ⟨rfl, hundone, he.inserts⟩
  · rw [hg, hnone]
    cases g with
    | database fault => exact .inr ⟨rfl, hundone, he.inserts⟩
    | _ => exact .inl ⟨_, rfl, hbreaks⟩

theorem rolledBack_broken (h : Lockstep breaks S Fit c outages outages' o) {f : Failure} (hf : breaks f)
    (level : String) (phase : BatchPhase) (s : Store) (k : Work) (malformed : List (String × Nat)) :
    ∃ g, (Settled.rolledBack outages o level phase f s k malformed).result = .error g ∧ breaks g := by
  simp only [Settled.rolledBack]
  split
  · exact ⟨f, rfl, hf⟩
  · exact ⟨f, rfl, hf⟩
  · rename_i g _ hg
    exact ⟨g, rfl, h.rollback f g hf hg⟩

theorem committed (h : Lockstep breaks S Fit c outages outages' o) (hs : S s t) (he : k.Even S k') (level : String)
    {b b' : Batch} (hb : b.writers = b'.writers) :
    (∃ g, (Settled.committed outages o level s b k).result = .error g ∧ breaks g) ∨
      (Settled.committed outages o level s b k).Level S (Settled.committed outages' o level t b' k') := by
  have hundone : S (Settled.undone level s k.store) (Settled.undone level t k'.store) := undone hs he level
  simp only [Settled.committed]
  rcases h.outage .commit with hsame | ⟨g, hg, hbreaks, -⟩
  · rw [hsame]
    right
    split
    · exact ⟨rfl, hundone, he.inserts⟩
    · exact ⟨by rw [hb], he.stores, he.inserts⟩
  · rw [hg]
    exact .inl ⟨g, rfl, hbreaks⟩

theorem ofBatch (h : Lockstep breaks S Fit c outages outages' o) {records kept : List (Except Failure Record)}
    (hk : Sieved c.schemas records kept) (hs : S s t) (level : String) (inserts : List String) :
    (∃ g, (Settled.ofBatch c outages o level records s inserts).result = .error g ∧ breaks g) ∨
      (Settled.ofBatch c outages o level records s inserts).Level S
        (Settled.ofBatch c outages' o level kept t inserts) := by
  have hstart : Beside S Fit ⟨⟨s, inserts, []⟩, [], []⟩ ⟨⟨t, inserts, []⟩, [], []⟩ := by
    refine ⟨rfl, ?_, ⟨hs, rfl⟩⟩
    simp
  have hwrite := h.write hk hstart
  simp only [Settled.ofBatch]
  generalize Batch.write c outages o records ⟨⟨s, inserts, []⟩, [], []⟩ = x at hwrite ⊢
  generalize Batch.write c outages' o kept ⟨⟨t, inserts, []⟩, [], []⟩ = y at hwrite ⊢
  cases hwrite with
  | error he => exact h.rolledBack hs he _ _ _ _ _
  | broken hf => exact .inl (h.rolledBack_broken hf _ _ _ _ _)
  | @ok _ b b' hb =>
    obtain ⟨hwriters, heven⟩ := hb
    have hoffset := h.storeOffset heven
    simp only
    generalize b.work.storeOffset outages o.stream o.offset = x at hoffset ⊢
    generalize b'.work.storeOffset outages' o.stream o.offset = y at hoffset ⊢
    cases hoffset with
    | ok he => exact h.committed hs he level hwriters
    | error he => exact h.rolledBack hs he _ _ _ _ _
    | broken hf => exact .inl (h.rolledBack_broken hf _ _ _ _ _)

theorem run (h : Lockstep breaks S Fit c outages outages' o) {records kept : List (Except Failure Record)}
    (hk : Sieved c.schemas records kept) (hs : S s t) (inserts : List String) :
    (∃ g, (Settled.run c outages o records s inserts).result = .error g ∧ breaks g) ∨
      (Settled.run c outages o records s inserts).Level S (Settled.run c outages' o kept t inserts) := by
  simp only [Settled.run]
  rcases h.outage .connect with hsame | ⟨g, hg, hbreaks, -⟩
  · rw [hsame]
    split
    · exact .inr ⟨rfl, hs, rfl⟩
    · split
      · exact .inr ⟨rfl, hs, rfl⟩
      · exact h.ofBatch hk hs _ _
  · rw [hg]
    exact .inl ⟨g, rfl, hbreaks⟩

/-- Batches side by side are answered alike and leave related stores, unless the first one is broken off. -/
theorem ingest (h : Lockstep breaks S Fit c outages outages' o) {records kept : List (Except Failure Record)}
    (hk : Sieved c.schemas records kept) {l m : Ledger} (hs : S l.store m.store) {stream offset : Value}
    (ho : Ledger.checkArguments stream offset = .ok o) (inserts : List String) :
    (∃ g, (l.ingest c outages stream records offset inserts).result =
        .error (g.during (.persistBatch o.stream o.offset)) ∧ breaks g) ∨
      (l.ingest c outages stream records offset inserts).result =
          (m.ingest c outages' stream kept offset inserts).result ∧
        S (l.ingest c outages stream records offset inserts).ledger.store
          (m.ingest c outages' stream kept offset inserts).ledger.store ∧
        (l.ingest c outages stream records offset inserts).inserts =
          (m.ingest c outages' stream kept offset inserts).inserts := by
  simp only [Ledger.ingest, ho]
  rcases h.run hk hs inserts with ⟨g, hg, hbreaks⟩ | ⟨hresult, hstores, hinserts⟩
  · left
    refine ⟨g, ?_, hbreaks⟩
    rw [hg]
  · right
    rw [hresult]
    split
    · exact ⟨rfl, hstores, hinserts⟩
    · exact ⟨rfl, hstores, hinserts⟩

/-- Storing an offset side by side: the same stores are made, or both calls fail with the same. -/
theorem storeOffset_of_stores (h : Lockstep breaks S Fit c outages outages' o) (hs : S s t) (inserts : List String) :
    (∃ g, (Ledger.storeOffset c outages o s inserts).1 = .error g ∧ breaks g) ∨
      (∃ g, (Ledger.storeOffset c outages o s inserts).1 = .error g ∧
        (Ledger.storeOffset c outages' o t inserts).1 = .error g) ∨
      ∃ s' t', (Ledger.storeOffset c outages o s inserts).1 = .ok s' ∧
        (Ledger.storeOffset c outages' o t inserts).1 = .ok t' ∧ S s' t' := by
  have hstart : Work.Even S ⟨s, inserts, []⟩ ⟨t, inserts, []⟩ := ⟨hs, rfl⟩
  have hstore := h.storeOffset hstart
  simp only [Ledger.storeOffset]
  rcases h.outage .connect with hsame | ⟨g, hg, hbreaks, -⟩
  · rw [hsame]
    cases outages'.at? .connect with
    | some g => exact .inr (.inl ⟨g, rfl, rfl⟩)
    | none =>
      cases c.link.initialLevel.2 with
      | error g => exact .inr (.inl ⟨g, rfl, rfl⟩)
      | ok level =>
        simp only
        generalize Work.storeOffset outages o.stream o.offset ⟨s, inserts, []⟩ = x at hstore ⊢
        generalize Work.storeOffset outages' o.stream o.offset ⟨t, inserts, []⟩ = y at hstore ⊢
        cases hstore with
        | @ok _ k k' he =>
          simp only
          rcases h.outage .commit with hsame | ⟨g, hg, hbreaks, -⟩
          · rw [hsame]
            cases outages'.at? .commit with
            | some g => exact .inr (.inl ⟨g, rfl, rfl⟩)
            | none => exact .inr (.inr ⟨k.store, k'.store, rfl, rfl, he.stores⟩)
          · rw [hg]
            exact .inl ⟨g, rfl, hbreaks⟩
        | @error f k k' he =>
          rcases h.outage .rollback with hsame | ⟨g, hg, hbreaks, -⟩
          · rw [hsame]
            exact .inr (.inl ⟨_, rfl, rfl⟩)
          · rw [hg]
            exact .inl ⟨g, rfl, hbreaks⟩
        | @broken f k _ hf =>
          left
          cases hg : outages.at? .rollback with
          | none => exact ⟨f, rfl, hf⟩
          | some g => exact ⟨g, rfl, h.rollback f g hf hg⟩
  · rw [hg]
    exact .inl ⟨g, rfl, hbreaks⟩

/-- Offsets set side by side are answered alike and leave related stores, unless the first call is broken off. -/
theorem setOffset (h : Lockstep breaks S Fit c outages outages' o) {l m : Ledger} (hs : S l.store m.store)
    {stream offset : Value} (ho : Ledger.checkArguments stream offset = .ok o) (inserts : List String) :
    (∃ g, (l.setOffset c outages stream offset inserts).result =
        .error (g.during (.storeOffset o.stream o.offset)) ∧ breaks g) ∨
      (l.setOffset c outages stream offset inserts).result = (m.setOffset c outages' stream offset inserts).result ∧
        S (l.setOffset c outages stream offset inserts).ledger.store
          (m.setOffset c outages' stream offset inserts).ledger.store := by
  have hstore := h.storeOffset_of_stores hs inserts
  simp only [Ledger.setOffset, ho]
  generalize Ledger.storeOffset c outages o l.store inserts = x at hstore ⊢
  generalize Ledger.storeOffset c outages' o m.store inserts = y at hstore ⊢
  obtain ⟨x, inserts₁⟩ := x
  obtain ⟨y, inserts₂⟩ := y
  rcases hstore with ⟨g, hx, hbreaks⟩ | ⟨g, hx, hy⟩ | ⟨s', t', hx, hy, hst⟩
  · obtain rfl : x = .error g := hx
    exact .inl ⟨g, rfl, hbreaks⟩
  · obtain rfl : x = .error g := hx
    obtain rfl : y = .error g := hy
    exact .inr ⟨rfl, hs⟩
  · obtain rfl : x = .ok s' := hx
    obtain rfl : y = .ok t' := hy
    exact .inr ⟨rfl, hst⟩

/-- On one store every chunk is taken alike, so that the outages alone can set two batches apart. -/
theorem on_same_store
    (hout : ∀ p, outages.at? p = outages'.at? p ∨ ∃ f, outages.at? p = some f ∧ breaks f ∧ outages'.at? p = none)
    (hrollback : ∀ f g, breaks f → outages.at? .rollback = some g → breaks g) :
    Lockstep breaks Eq (fun _ _ => True) c outages outages' o where
  outage := hout
  rollback := hrollback
  chunk := fun _ _ _ _ => Store.alike_eq _
  offset := Store.alike_eq _
  make := by simp
  push := by simp
  settle := by simp

end Lockstep

end FeedLedger
