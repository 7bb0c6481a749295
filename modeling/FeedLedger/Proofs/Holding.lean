import FeedLedger.Proofs.Carried
import FeedLedger.Proofs.Oversized

namespace FeedLedger

namespace Store

/-- A row stands for every row that a record projects to: under its natural key, or with all its values. -/
def Holds (store : Store) (v : ValidRecord) : Prop :=
  ∀ row ∈ v.rows, ∃ t, Catalog.table? v.schema.table = some t ∧
    ∃ r ∈ store.rows v.schema.table, t.Carries v.schema.identity (v.schema.columns.zip row) r

/-- Every row of a table with a schema has one to stand for it afterwards. -/
def Retains (before after : Store) : Prop :=
  ∀ table s, Registry.schema? table = some s → ∀ r ∈ before.rows table, ∃ q ∈ after.rows table,
    Row.Alike s.identity r q

theorem Holds.retained {before after : Store} {v : ValidRecord} (h : before.Holds v)
    (hs : Registry.schema? v.schema.table = some v.schema) (hr : before.Retains after) : after.Holds v := by
  intro row hrow
  obtain ⟨t, ht, r, hmem, hcarries⟩ := h row hrow
  obtain ⟨q, hq, halike⟩ := hr _ _ hs r hmem
  exact ⟨t, ht, q, hq, hcarries.alike halike⟩

end Store

namespace Schema

variable {s : Schema} {t : Table} {conflict : Conflict} {batch : String} {n : Nat} {row : List Value}

theorem Fits.get?_params (h : s.Fits t conflict) (batch : String) (n : Nat) (hl : row.length = s.columns.length)
    {column : String} (hc : column ∈ s.columns) :
    Keyed.get? column (Writer.params s batch n row) = Keyed.get? column (s.columns.zip row) := by
  have hkeys : Keyed.keys (s.columns.zip row) = s.columns := List.map_fst_zip (Nat.le_of_eq hl.symm)
  simp only [Writer.params]
  rw [Keyed.ofPairs_eq_self (by rw [hkeys]; exact h.ordered)]
  split
  · rename_i hs
    exact Keyed.get?_put_ne (ne_of_mem_of_not_mem hc (h.ingestKey hs).2) _ _
  · rfl

theorem get?_ingestKey (hs : s.syntheticKey = true) (batch : String) (n : Nat) (row : List Value) :
    Keyed.get? ingestKeyColumn (Writer.params s batch n row) = some (.text (IngestKey.key batch s.table (.int n))) := by
  simp only [Writer.params]
  rw [if_pos hs, Keyed.get?_put_self]

theorem Fits.identity_subset (h : s.Fits t conflict) : s.identity ⊆ s.columns := by
  simp only [identity]
  split
  · exact List.Subset.refl _
  · rename_i hs
    intro k hk
    have hw := (h.keyed k hk).1
    rw [writeColumns, if_neg hs] at hw
    exact hw

theorem columns_subset (s : Schema) : s.columns ⊆ s.writeColumns := by
  simp only [writeColumns]
  split
  · exact List.subset_append_left _ _
  · exact List.Subset.refl _

theorem Fits.carries_zip (h : s.Fits t conflict) (hl : row.length = s.columns.length) {r : Row}
    (hr : t.Carries s.identity (Writer.params s batch n row) r) : t.Carries s.identity (s.columns.zip row) r := by
  intro column hc
  obtain ⟨c, v, hcolumn, hv, hbind⟩ := hr column hc
  rw [h.get?_params batch n hl (h.identity_subset hc)] at hv
  exact ⟨c, v, hcolumn, hv, hbind⟩

end Schema

namespace Batch

variable {rs : List Record} {batch table : String} {rows rows' : List Row} {v : ValidRecord}

/-- The ingest keys of a batch's rows for a table are no two the same. -/
def KeysApart (batch table : String) (count : Nat) : Prop :=
  ∀ i j, i < j → j < count → IngestKey.key batch table (.int i) ≠ IngestKey.key batch table (.int j)

/-- Whether a row of a table has an ingest key of a batch. -/
def Taken (batch table : String) (count : Nat) (rows : List Row) : Prop :=
  ∃ r ∈ rows, ∃ m < count, r.cell Schema.ingestKeyColumn = .text (IngestKey.key batch table (.int m))

/-- Where none of a batch's ingest keys is taken, its rows are added in their order, each with all its values. -/
theorem settled_appends {s : Schema} {t : Table} {conflict : Conflict} (e : Registry.Entry table s t conflict)
    (hs : s.syntheticKey = true)
    (hapart : KeysApart batch table (rowsOf table (validRecords Registry.schema? rs)).length)
    (hfree : ¬Taken batch table (rowsOf table (validRecords Registry.schema? rs)).length rows)
    (he : Store.settled table (handed batch table (validRecords Registry.schema? rs)) rows = .ok rows') :
    ∃ added, rows' = rows ++ added ∧
      List.Forall₂ (t.Carries s.writeColumns) (handed batch table (validRecords Registry.schema? rs)) added := by
  have hschema : ∀ p ∈ handed batch table (validRecords Registry.schema? rs), ∃ row,
      ∃ n < (rowsOf table (validRecords Registry.schema? rs)).length, p = Writer.params s batch n row := by
    intro p hp
    rw [handed_eq e.known] at hp
    obtain ⟨row, -, n, -, hn, rfl⟩ := Writer.mem_paramsFrom hp
    rw [Nat.zero_add] at hn
    exact ⟨row, n, hn, rfl⟩
  have htable := Registry.schema?_table e.known
  rw [e.settled_eq] at he
  refine e.fits.settleAll_appends hs (fun p hp => takes_of_mem_handed e hp) ?_ ?_ ?_ he
  · intro p hp
    obtain ⟨row, n, -, rfl⟩ := hschema p hp
    exact ⟨_, Schema.get?_ingestKey hs batch n row⟩
  · rw [handed_eq e.known]
    refine Writer.pairwise_paramsFrom 0 _ fun i j row row' hij hj hsame => ?_
    rw [Schema.get?_ingestKey hs, Schema.get?_ingestKey hs, htable] at hsame
    rw [Nat.zero_add] at hj
    exact hapart i j hij hj (Value.text.inj (Option.some.inj hsame))
  · intro p hp key hkey r hr hcell
    obtain ⟨row, n, hn, rfl⟩ := hschema p hp
    rw [Schema.get?_ingestKey hs, htable] at hkey
    rw [← Value.text.inj (Option.some.inj hkey)] at hcell
    exact hfree ⟨r, hr, n, hn, hcell⟩

end Batch

private theorem exists_of_mem_left {α β : Type} {R : α → β → Prop} {l : List α} {m : List β} (h : List.Forall₂ R l m)
    {a : α} (ha : a ∈ l) : ∃ b ∈ m, R a b := by
  induction h with
  | nil => cases ha
  | cons hfirst hrest ih =>
    rcases List.mem_cons.1 ha with rfl | ha
    · exact ⟨_, List.mem_cons_self, hfirst⟩
    · obtain ⟨b, hb, hab⟩ := ih ha
      exact ⟨b, List.mem_cons_of_mem _ hb, hab⟩

namespace Commits

variable {o : BatchOrigin} {rs : List Record} {chunks : List Chunk} {before after : Store}

theorem settleAll (h : Commits Registry.schema? o rs chunks before after) (hs : before.Sound) {table : String}
    {s : Schema} {t : Table} {conflict : Conflict} (e : Registry.Entry table s t conflict) :
    t.settleAll s.policy (Batch.handed (IngestKey.batchName o.stream o.offset) table
      (Batch.validRecords Registry.schema? rs)) (before.rows table) = .ok (after.rows table) := by
  obtain ⟨-, hsettled, -⟩ := h.settled hs
  have hT : table ≠ Catalog.offsetsTable := e.name ▸ e.fits.apart
  rw [← e.settled_eq]
  exact hsettled table hT

theorem retains (h : Commits Registry.schema? o rs chunks before after) (hs : before.Sound) : before.Retains after := by
  intro table s hknown r hr
  obtain ⟨t, conflict, e⟩ := Registry.entry_of_schema? hknown
  exact e.fits.settleAll_retains (h.settleAll hs e) hr

/-- A committed batch leaves a valid record of it held, if it was held before in case one of its ingest keys was taken
there. -/
theorem holds (h : Commits Registry.schema? o rs chunks before after) (hs : before.Sound) {v : ValidRecord}
    (hv : v ∈ Batch.validRecords Registry.schema? rs)
    (hnew : v.schema.syntheticKey = true →
      let count := (Batch.rowsOf v.schema.table (Batch.validRecords Registry.schema? rs)).length
      Batch.KeysApart (IngestKey.batchName o.stream o.offset) v.schema.table count ∧
        (Batch.Taken (IngestKey.batchName o.stream o.offset) v.schema.table count (before.rows v.schema.table) →
          before.Holds v)) :
    after.Holds v := by
  intro row hrow
  have hknown := (Batch.schema?_of_valid hv).1
  obtain ⟨t, conflict, e⟩ := Registry.entry_of_schema? hknown
  have hl : row.length = v.schema.columns.length := ValidRecord.length_of_mem_rows hrow
  obtain ⟨m, hm⟩ := Batch.params_mem_handed (IngestKey.batchName o.stream o.offset) hv hrow
  have hsettled := h.settleAll hs e
  by_cases hsynthetic : v.schema.syntheticKey = true
  · obtain ⟨hapart, htaken⟩ := hnew hsynthetic
    by_cases hfree : Batch.Taken (IngestKey.batchName o.stream o.offset) v.schema.table
        (Batch.rowsOf v.schema.table (Batch.validRecords Registry.schema? rs)).length (before.rows v.schema.table)
    · exact (htaken hfree).retained hknown (h.retains hs) row hrow
    · rw [← e.settled_eq] at hsettled
      obtain ⟨added, hafter, hadded⟩ := Batch.settled_appends e hsynthetic hapart hfree hsettled
      obtain ⟨r, hr, hcarries⟩ := exists_of_mem_left hadded hm
      have hidentity : v.schema.identity ⊆ v.schema.writeColumns :=
        fun _ hc => v.schema.columns_subset (e.fits.identity_subset hc)
      refine ⟨t, e.listed, r, ?_, e.fits.carries_zip hl (hcarries.mono hidentity)⟩
      rw [hafter]
      exact List.mem_append_right _ hr
  · obtain ⟨q, hq, hcarries⟩ :=
      e.fits.settleAll_finds hsynthetic (fun p hp => Batch.takes_of_mem_handed e hp) hsettled hm
    exact ⟨t, e.listed, q, hq, e.fits.carries_zip hl hcarries⟩

theorem mem_rows (h : Commits Registry.schema? o rs chunks before after) (hs : before.Sound) {table : String}
    {s : Schema} (hknown : Registry.schema? table = some s) (hsynthetic : s.syntheticKey = true) {q : Row}
    (hq : q ∈ after.rows table) :
    q ∈ before.rows table ∨ ∃ m < (Batch.rowsOf table (Batch.validRecords Registry.schema? rs)).length,
      q.cell Schema.ingestKeyColumn =
        .text (IngestKey.key (IngestKey.batchName o.stream o.offset) table (.int m)) := by
  obtain ⟨t, conflict, e⟩ := Registry.entry_of_schema? hknown
  rcases e.fits.mem_settleAll (e.fits.appends hsynthetic).1 (fun p hp => Batch.takes_of_mem_handed e hp)
    (h.settleAll hs e) hq with hold | ⟨p, hp, hcarries⟩
  · exact .inl hold
  · rw [Batch.handed_eq hknown] at hp
    obtain ⟨row, -, m, -, hm, rfl⟩ := Writer.mem_paramsFrom hp
    rw [Nat.zero_add] at hm
    have hkey := e.fits.cell_ingestKey hsynthetic (Schema.get?_ingestKey hsynthetic _ m row)
      (hcarries.mono (Schema.ingestKey_subset hsynthetic))
    rw [Registry.schema?_table hknown] at hkey
    exact .inr ⟨m, hm, hkey⟩

end Commits

end FeedLedger
