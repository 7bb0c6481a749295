import FeedLedger.Proofs.Committed
import FeedLedger.Proofs.Delivery

namespace FeedLedger

namespace Batch

variable {table : String} {s : Schema} {t : Table} {conflict : Conflict} {rs : List Record} {rows rows' : List Row}

/-- Rows that carry the parameters of rows of values carry these values. -/
theorem carries_of_paramsFrom (h : s.Fits t conflict) (hs : s.syntheticKey = true) {batch : String} {n : Nat}
    {values : List (List Value)} (hl : ∀ row ∈ values, row.length = s.columns.length) {added : List Row}
    (ha : List.Forall₂ (t.Carries s.writeColumns) (Writer.paramsFrom s batch n values) added) :
    List.Forall₂ (fun row => t.Carries s.columns (s.columns.zip row)) values added := by
  induction values generalizing n added with
  | nil =>
    cases ha
    exact .nil
  | cons row rest ih =>
    obtain ⟨hfirst, hlater⟩ := List.forall_mem_cons.1 hl
    rw [Writer.paramsFrom] at ha
    cases ha with
    | cons hrow hrest =>
      have hidentity : s.identity = s.columns := by rw [Schema.identity, if_pos hs]
      have hcarries := h.carries_zip hfirst (hrow.mono fun c hc => s.columns_subset (hidentity ▸ hc))
      rw [hidentity] at hcarries
      exact .cons hcarries (ih hlater hrest)

end Batch

namespace Attempt

/-- The bytes that are hashed for the ingest keys of a call. -/
def hashed (a : Attempt) : List (List UInt8) :=
  match Ledger.checkArguments a.write.stream a.write.offset with
  | .ok o =>
    (Registry.schemas.filter (·.syntheticKey)).flatMap fun s =>
      (List.range (a.rowsFor s.table).length).map (IngestKey.bytes (IngestKey.batchName o.stream o.offset) s.table)
  | .error _ => []

variable {a : Attempt} {o : BatchOrigin} {table : String} {s : Schema}

theorem mem_hashed (ho : Ledger.checkArguments a.write.stream a.write.offset = .ok o)
    (hknown : Registry.schema? table = some s) (hs : s.syntheticKey = true) {place : Nat}
    (hplace : place < (a.rowsFor table).length) :
    IngestKey.bytes (IngestKey.batchName o.stream o.offset) table place ∈ a.hashed := by
  have htable := Registry.schema?_table hknown
  subst htable
  simp only [hashed]
  rw [ho]
  exact List.mem_flatMap.2 ⟨s, List.mem_filter.2 ⟨Registry.mem_of_schema? hknown, hs⟩,
    List.mem_map_of_mem (List.mem_range.2 hplace)⟩

/-- The rows without a natural key carry the ingest keys of rows that some calls brought. -/
def Marked (store : Store) (done : List Attempt) : Prop :=
  ∀ table s, Registry.schema? table = some s → s.syntheticKey = true → ∀ r ∈ store.rows table,
    ∃ a ∈ done, ∃ o, Ledger.checkArguments a.write.stream a.write.offset = .ok o ∧ ∃ place < (a.rowsFor table).length,
      r.cell Schema.ingestKeyColumn = .text (IngestKey.key (IngestKey.batchName o.stream o.offset) table (.int place))

theorem Marked.commit {chunks : List Chunk} {before after : Store} {done : List Attempt} (h : Marked before done)
    (hs : before.Sound) (hc : a.Committed o chunks before after) : Marked after (done ++ [a]) := by
  intro table s hknown hsynthetic r hr
  rcases hc.commits.mem_rows hs hknown hsynthetic hr with hold | ⟨place, hplace, hcell⟩
  · obtain ⟨b, hb, hmark⟩ := h table s hknown hsynthetic r hold
    exact ⟨b, List.mem_append_left _ hb, hmark⟩
  · exact ⟨a, List.mem_append_right _ List.mem_cons_self, o, hc.checked, place, hplace, hcell⟩

theorem marked_run {calls : List Attempt} (hb : ∀ a ∈ calls, a.schemas = Registry.schema?) :
    (run .fresh calls).2.store.Sound ∧ Marked (run .fresh calls).2.store (returning .fresh calls) := by
  have hstart : Ledger.fresh.store.Sound ∧ Marked Ledger.fresh.store [] :=
    ⟨Store.sound_empty, fun _ _ _ _ r hr => absurd hr List.not_mem_nil⟩
  have hrun := run_keeps (P := fun store done => store.Sound ∧ Marked store done) hb
    (fun _ _ _ _ _ _ hc h => ⟨hc.commits.sound h.1, h.2.commit h.1 hc⟩) hstart
  rwa [List.nil_append] at hrun

/-- The batch of a call under a text. -/
theorem origin_of_text {stream offset : Value} (h : Ledger.checkArguments stream offset = .ok o) {name : String}
    (hname : stream = .text name) : ∃ n : Nat, o = ⟨.text name, n⟩ ∧ offset = .int n := by
  obtain ⟨-, hstream, hoffset, hpositive⟩ := Ledger.checkArguments_ok h
  obtain ⟨source, n⟩ := o
  obtain ⟨m, rfl⟩ := Int.eq_ofNat_of_zero_le hpositive
  exact ⟨m, by rw [← hname, ← hstream], hoffset⟩

/-- Keys of different places in committed batches under texts differ, so none of a new batch's keys is taken. -/
theorem Marked.free {store : Store} {done : List Attempt} {last : Attempt} {chunks : List Chunk} {after : Store}
    (h : Marked store done) (hc : last.Committed o chunks store after)
    (htexts : ∀ a ∈ done ++ [last], ∃ name, a.write.stream = .text name)
    (hnew : ∀ a ∈ done, a.write.stream = last.write.stream → a.write.offset = last.write.offset → a.write.records = [])
    (hfree : Delivery.CollisionFree ((done ++ [last]).flatMap (·.hashed)))
    (hknown : Registry.schema? table = some s) (hs : s.syntheticKey = true) :
    Batch.KeysApart (IngestKey.batchName o.stream o.offset) table (last.rowsFor table).length ∧
      ¬Batch.Taken (IngestKey.batchName o.stream o.offset) table (last.rowsFor table).length (store.rows table) := by
  have hhashed (a : Attempt) (ha : a ∈ done ++ [last]) : a.hashed ⊆ (done ++ [last]).flatMap (·.hashed) :=
    fun x hx => List.mem_flatMap.2 ⟨a, ha, hx⟩
  have hlast : last ∈ done ++ [last] := List.mem_append_right _ List.mem_cons_self
  obtain ⟨name, hname⟩ := htexts last hlast
  obtain ⟨n, rfl, hoffset⟩ := origin_of_text hc.checked hname
  have hown (place : Nat) (hplace : place < (last.rowsFor table).length) :=
    hhashed last hlast (mem_hashed hc.checked hknown hs hplace)
  constructor
  · intro i j hij hj hkeys
    obtain ⟨-, -, hplace⟩ := Delivery.same_origin hfree hknown (hown i (by omega)) (hown j hj) hkeys
    omega
  · rintro ⟨r, hr, m, hm, hcell⟩
    obtain ⟨a, ha, o', ho', place, hplace, hcell'⟩ := h table s hknown hs r hr
    have hmem : a ∈ done ++ [last] := List.mem_append_left _ ha
    obtain ⟨other, hother⟩ := htexts a hmem
    obtain ⟨k, rfl, hk⟩ := origin_of_text ho' hother
    obtain ⟨rfl, rfl, -⟩ := Delivery.same_origin hfree hknown (hhashed a hmem (mem_hashed ho' hknown hs hplace)) (hown m hm)
      (Cell.text.inj (hcell'.symm.trans hcell))
    -- the row would come from a batch under the same stream and offset, and there is none with records
    have hrecords := hnew a ha (hother.trans hname.symm) (hk.trans hoffset.symm)
    simp [rowsFor, Write.sources, hrecords, Batch.validRecords, Batch.rowsOf] at hplace

/-- A batch that is taken in under a stream and offset under which no records were before adds one row for each row that
its valid records project to, in their order and with their values, behind the rows that a table without a natural key
had. The streams may be any texts, as long as the digests of no two ingest keys collide. -/
theorem batch_is_appended (calls : List Attempt) (last : Attempt)
    (hb : ∀ a ∈ calls ++ [last], a.schemas = Registry.schema?)
    (htexts : ∀ a ∈ calls ++ [last], ∃ name, a.write.stream = .text name)
    (hnew : ∀ a ∈ returning .fresh calls, a.write.stream = last.write.stream → a.write.offset = last.write.offset →
      a.write.records = [])
    (hfree : Delivery.CollisionFree ((returning .fresh calls ++ [last]).flatMap (·.hashed))) {answer : Answer}
    (hok : (last.carryOut (run .fresh calls).2).1 = .ok answer) (s : Schema) (hs : s ∈ Registry.schemas)
    (hsynthetic : s.syntheticKey = true) :
    ∃ t added, Catalog.table? s.table = some t ∧
      (last.carryOut (run .fresh calls).2).2.store.rows s.table = (run .fresh calls).2.store.rows s.table ++ added ∧
      List.Forall₂ (fun row => t.Carries s.columns (s.columns.zip row)) (last.rowsFor s.table) added := by
  obtain ⟨hearlier, hlast⟩ := List.forall_mem_append.1 hb
  have htexts' : ∀ a ∈ returning .fresh calls ++ [last], ∃ name, a.write.stream = .text name := by
    intro a ha
    rcases List.mem_append.1 ha with ha | ha
    · exact htexts a (List.mem_append_left _ (mem_of_mem_returning ha))
    · exact htexts a (List.mem_append_right _ ha)
  obtain ⟨hsound, hmarked⟩ := marked_run hearlier
  rcases committed_cases (hlast last List.mem_cons_self) (run .fresh calls).2 with ⟨f, hf, -⟩ | ⟨o, chunks, -, hc⟩
  · rw [hf] at hok
    cases hok
  have hknown := Registry.schema?_of_mem hs
  obtain ⟨t, conflict, e⟩ := Registry.entry_of_schema? hknown
  obtain ⟨hapart, hunused⟩ := hmarked.free hc htexts' hnew hfree hknown hsynthetic
  have hsettled := hc.commits.settleAll hsound e
  rw [← e.settled_eq] at hsettled
  obtain ⟨added, hrows, hadded⟩ := Batch.settled_appends e hsynthetic hapart hunused hsettled
  rw [Batch.handed_eq hknown] at hadded
  exact ⟨t, added, e.listed, hrows,
    Batch.carries_of_paramsFrom e.fits hsynthetic (fun row hrow => Batch.length_of_mem_rowsOf hknown hrow) hadded⟩

/-- Two equal liquidations and a malformed one, behind equal ones of another offset and of a stream with a colon in its
name, where the offset had been set before without a batch. -/
theorem equal_rows_are_appended :
    let call (write : Write) : Attempt := ⟨Registry.schema?, 1, false, [], [], write⟩
    let calls := [call (.ingest (.text "s") [.ok (.liquidation (.int 1))] (.int 1)),
      call (.ingest (.text "s:1") [.ok (.liquidation (.int 1))] (.int 2)), call (.setOffset (.text "s") (.int 2))]
    let last := call (.submit 1 ⟨.text "s", [.ok (.liquidation (.int 1)), .ok (.liquidation .null),
      .ok (.liquidation (.int 1))], .int 2⟩)
    let rows (l : Ledger) := l.store.rows Registry.linearAllLiquidation.table
    (∀ a ∈ calls ++ [last], a.schemas = Registry.schema?) ∧
      (∀ a ∈ calls ++ [last], ∃ name, a.write.stream = .text name) ∧
      Delivery.CollisionFree ((returning .fresh calls ++ [last]).flatMap (·.hashed)) ∧
      (rows (run .fresh calls).2).length = 2 ∧
      ∃ added, rows (last.carryOut (run .fresh calls).2).2 = rows (run .fresh calls).2 ++ added ∧ added.length = 2 := by
  intro call calls last rows
  have hb : ∀ a ∈ calls ++ [last], a.schemas = Registry.schema? := by simp [calls, last, call]
  have htexts : ∀ a ∈ calls ++ [last], ∃ name, a.write.stream = .text name := by simp [calls, last, call, Write.stream]
  have hnew : ∀ a ∈ calls, a.write.stream = last.write.stream → a.write.offset = last.write.offset →
      a.write.records = [] := by
    simp [calls, last, call, Write.stream, Write.offset, Write.records]
  have hfree : Delivery.CollisionFree ((returning .fresh calls ++ [last]).flatMap (·.hashed)) := by decide +kernel
  have hknown : Registry.linearAllLiquidation ∈ Registry.schemas := by decide +kernel
  have hreturn : (last.carryOut (run .fresh calls).2).1.toOption.isSome = true := by decide +kernel
  obtain ⟨answer, hanswer⟩ := Option.isSome_iff_exists.1 hreturn
  have hok := eq_ok_of_toOption hanswer
  obtain ⟨t, added, -, hrows, hadded⟩ := batch_is_appended calls last hb htexts
    (fun a ha => hnew a (mem_of_mem_returning ha)) hfree hok Registry.linearAllLiquidation hknown rfl
  have hcount : (last.rowsFor Registry.linearAllLiquidation.table).length = 2 := by decide +kernel
  exact ⟨hb, htexts, hfree, by decide +kernel, added, hrows, hadded.length_eq ▸ hcount⟩

end Attempt

end FeedLedger
