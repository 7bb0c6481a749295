import FeedLedger.Proofs.Admission
import FeedLedger.Proofs.History

namespace FeedLedger

/-- Ledgers that later calls on a session's store lead to, as long as no table is dropped. -/
inductive Ledger.Leads : Ledger → Ledger → Prop
  | refl (l : Ledger) : Leads l l
  | call {l m : Ledger} (h : Leads l m) (chunkSize : Int) (autocommitting : Bool) (outages : Outages) (c : Call)
      (hdrop : c = .createTables true → ∃ f, outages.at? .connect = some f) :
      Leads l (c.run (Coordinator.builtin chunkSize autocommitting) outages m).ledger

/-- What every committed batch keeps still holds at such a ledger. -/
theorem Ledger.Leads.keeps {P : Store → Prop}
    (hP : ∀ o rs chunks before after, Commits Registry.schema? o rs chunks before after → P before → P after)
    {l m : Ledger} (h : l.Leads m) (hl : P l.store) : P m.store := by
  induction h with
  | refl => exact hl
  | call h chunkSize autocommitting outages c hdrop ih =>
    by_cases hc : c = .createTables true
    · obtain ⟨f, hf⟩ := hdrop hc
      simpa only [hc, Call.run, createTables, hf, Reply.ledger_map] using ih
    · exact run_keeps (Coordinator.default_ne_autocommit chunkSize autocommitting) c (fun e => absurd e hc) hP ih

namespace Schema

variable {s : Schema} {t : Table} {history again : List (List (String × Cell))}

theorem content_ignore (hp : s.policy = .ignore) (h : ∀ given ∈ again, s.keyOf given ∈ history.map s.keyOf) :
    s.content t (history ++ again) = s.content t history := by
  simpa using content_again hp h t []

/-- Items that come again at once make no difference. -/
theorem content_at_once (s : Schema) (t : Table) (history again : List (List (String × Cell))) :
    s.content t (history ++ again ++ again) = s.content t (history ++ again) := by
  cases hp : s.policy with
  | ignore =>
    apply content_ignore hp
    intro given hgiven
    exact List.mem_map_of_mem (List.mem_append_right history hgiven)
  | update => rw [content, content, hp, ConflictPolicy.kept_update_again]

end Schema

namespace Store

/-- A store in which every table with a schema has a history, and in it the keys of some rows of parameters. -/
structure Remembers (store : Store) (ps : String → List Params) : Prop where
  sound : store.Sound
  told : ∀ table s t conflict, Registry.Entry table s t conflict → ∃ history, s.Tells t history (store.rows table) ∧
    ∀ given ∈ t.cellsOf (ps table), s.keyOf given ∈ history.map s.keyOf

theorem remembers_empty : empty.Remembers fun _ => [] :=
  ⟨sound_empty, fun _ s t _ _ => ⟨[], s.tells_nil t, by simp [Table.cellsOf]⟩⟩

variable {o : BatchOrigin} {rs : List Record} {chunks : List Chunk} {before after : Store} {ps : String → List Params}

/-- What is remembered stays so. -/
theorem Remembers.commit (h : before.Remembers ps) (hc : Commits Registry.schema? o rs chunks before after) :
    after.Remembers ps := by
  refine ⟨hc.sound h.sound, fun table s t conflict e => ?_⟩
  obtain ⟨history, hh, hkeys⟩ := h.told table s t conflict e
  refine ⟨_, (hc.tells h.sound e hh).1, fun given hgiven => ?_⟩
  rw [List.map_append]
  exact List.mem_append_left _ (hkeys given hgiven)

/-- The rows of a committed batch are remembered. -/
theorem Remembers.of_commit (h : before.Remembers ps) (hc : Commits Registry.schema? o rs chunks before after) :
    after.Remembers fun table =>
      Batch.handed (IngestKey.batchName o.stream o.offset) table (Batch.validRecords Registry.schema? rs) := by
  refine ⟨hc.sound h.sound, fun table s t conflict e => ?_⟩
  obtain ⟨history, hh, -⟩ := h.told table s t conflict e
  refine ⟨_, (hc.tells h.sound e hh).1, fun given hgiven => ?_⟩
  exact List.mem_map_of_mem (List.mem_append_right history hgiven)

end Store

theorem Reached.remembers {l : Ledger} (h : Reached l) : l.store.Remembers fun _ => [] :=
  h.holds (P := fun store => store.Remembers fun _ => []) Store.remembers_empty fun _ _ _ _ _ hc hs => hs.commit hc

namespace Commits

variable {o : BatchOrigin} {rs : List Record} {chunks : List Chunk} {before after : Store}

/-- A batch that has been committed holds no oversized integer. -/
theorem not_oversized (h : Commits Registry.schema? o rs chunks before after) (hs : before.Sound) :
    ¬Batch.Oversized (Batch.validRecords Registry.schema? rs) := by
  intro hlarge
  obtain ⟨-, mid, hsettled, -⟩ := h.written hs
  obtain ⟨table, p, hp, hover⟩ := (Batch.oversized_iff (IngestKey.batchName o.stream o.offset) rs).1 hlarge
  rcases Batch.settled_cases (fun q hq => hq) (before.rows table) with ⟨-, he⟩ | ⟨hsmall, -⟩
  · rw [hsettled table] at he
    cases he
  · exact hsmall p hp hover

end Commits

namespace Ledger

variable {o : BatchOrigin} {rs : List Record} {chunks : List Chunk} {before after : Store} {stream offset : Value}

/-- A batch that has been committed once is taken in at any ledger: its rows are settled and its offset is stored. -/
theorem ingest_again (h : Commits Registry.schema? o rs chunks before after) (hs : before.Sound)
    (ho : checkArguments stream offset = .ok o) {l : Ledger} (hl : l.store.Sound) {chunkSize : Int} (hc : 1 ≤ chunkSize)
    (autocommitting : Bool) (inserts : List String) :
    let again := l.ingest (.builtin chunkSize autocommitting) [] stream (rs.map .ok) offset inserts
    again.result = .ok ((Batch.validRecords Registry.schema? rs).flatMap (·.rows)).length ∧
      again.ledger.getOffset [] stream = .ok (some o.offset) ∧
      ∀ table s t conflict, Registry.Entry table s t conflict → ∀ history, s.Tells t history (l.store.rows table) →
        again.ledger.store.rows table = s.content t (history ++ t.cellsOf
          (Batch.handed (IngestKey.batchName o.stream o.offset) table (Batch.validRecords Registry.schema? rs))) := by
  intro again
  obtain ⟨-, -, -, name, hname, hfits, -⟩ := h.written hs
  obtain ⟨mid, hmid, hsettled, hrun⟩ := ingest_small hl hc autocommitting inserts ho (h.not_oversized hs)
  rw [Store.executeChunk_offset hmid.laid hname, if_pos hfits] at hrun
  obtain ⟨hresult, hstore⟩ := hrun
  have hstore : again.ledger.store = mid.withOffset name o.offset := hstore
  refine ⟨hresult, ?_, fun table s t conflict e history hh => ?_⟩
  · apply getOffset_of_lookUp
    rw [hstore, ← (checkArguments_ok ho).2.1]
    exact Store.lookUp_withOffset hname mid o.offset
  · have hT : table ≠ Catalog.offsetsTable := e.name ▸ e.fits.apart
    have he := hsettled table
    rw [e.settled_eq, hh.rows_eq] at he
    rw [hstore, Store.rows_withOffset_ne hT]
    exact (e.fits.settleAll_content (fun p hp => Batch.takes_of_mem_handed e hp) hh.gives he).1

end Ledger

namespace Attempt

/-- A batch that has been committed can be taken in again at any later time: it commits with the same count, its offset
is stored and no row is added or changed where taken keys are skipped. Taken in again at once, it changes no row at
all; rows that are overwritten get the values they have. -/
theorem replay_is_idempotent {l later : Ledger} (hl : Reached l) (original : Attempt)
    (hb : original.schemas = Registry.schema?) {n : Nat} (hok : (original.carryOut l).1 = .ok (.rows n))
    (hlater : (original.carryOut l).2.Leads later) {chunkSize : Int} (hc : 1 ≤ chunkSize) (autocommitting : Bool)
    (inserts : List String) :
    let again := later.ingest (.builtin chunkSize autocommitting) [] original.write.stream original.write.records
      original.write.offset inserts
    again.result = .ok n ∧
      (∃ o, original.write.offset = .int o ∧ again.ledger.getOffset [] original.write.stream = .ok (some o)) ∧
      (∀ s ∈ Registry.schemas, s.policy = .ignore →
        again.ledger.store.rows s.table = later.store.rows s.table) ∧
      (later.store = (original.carryOut l).2.store → ∀ s ∈ Registry.schemas,
        again.ledger.store.rows s.table = later.store.rows s.table) := by
  rcases committed_cases hb l with ⟨f, hf, -⟩ | ⟨o, chunks, hans, hcom⟩
  · rw [hf] at hok
    cases hok
  have hn : n = ((Batch.validRecords Registry.schema? original.write.sources).flatMap (·.rows)).length := by
    rw [hans] at hok
    cases hw : original.write <;> rw [hw] at hok <;> cases hok <;> rfl
  have hbefore := hl.remembers
  have hnow := hlater.keeps (fun _ _ _ _ _ hc hs => Store.Remembers.commit hs hc) (hbefore.of_commit hcom.commits)
  obtain ⟨hresult, hoffset, hrows⟩ :=
    Ledger.ingest_again hcom.commits hl.sound hcom.checked hnow.sound hc autocommitting inserts
  intro again
  have hagain : again = later.ingest (.builtin chunkSize autocommitting) [] original.write.stream
      (original.write.sources.map .ok) original.write.offset inserts := by rw [← hcom.sourced]
  rw [hagain, hn]
  refine ⟨hresult, ⟨o.offset, hcom.origin.2.1, hoffset⟩, fun s hs hignore => ?_, fun hdirect s hs => ?_⟩
  · obtain ⟨t, conflict, e⟩ := Registry.entry_of_schema? (Registry.schema?_of_mem hs)
    obtain ⟨history, hh, hkeys⟩ := hnow.told _ s t conflict e
    rw [hrows _ s t conflict e history hh, Schema.content_ignore hignore hkeys, ← hh.rows_eq]
  · obtain ⟨t, conflict, e⟩ := Registry.entry_of_schema? (Registry.schema?_of_mem hs)
    obtain ⟨history, hh, -⟩ := hbefore.told _ s t conflict e
    obtain ⟨hdone, -⟩ := hcom.commits.tells hl.sound e hh
    rw [← hdirect] at hdone
    rw [hrows _ s t conflict e _ hdone, Schema.content_at_once, ← hdone.rows_eq]

/-- Two equal liquidations, a score and an indicator, taken in again behind another batch of the same stream and offset,
and taken in again at once. -/
theorem replay_behind_same_offset :
    let indicator (price : Value) : Record :=
      ⟨"indicators", [("symbol", .text "BTC"), ("timestamp", .int 1700000000000), ("close_price", price)]⟩
    let batch := [.ok (.liquidation (.int 1)), .ok (.liquidation (.int 1)), .ok (.sentiment (.int 50)),
      .ok (indicator (.int 1))]
    let original : Attempt := ⟨Registry.schema?, 1, false, [], [], .ingest (.text "s") batch (.int 3)⟩
    let other : Call := .ingest (.text "s") [.ok (.liquidation (.int 2)), .ok (indicator (.int 2))] (.int 3)
    let later := (other.run (.builtin 1000 false) [] (original.carryOut .fresh).2).ledger
    let again (l : Ledger) := l.ingest (.builtin 2 true) [] original.write.stream original.write.records
      original.write.offset []
    Reached .fresh ∧ (original.carryOut .fresh).1 = .ok (.rows 4) ∧ (original.carryOut .fresh).2.Leads later ∧
      (again later).result = .ok 4 ∧
      (∀ s ∈ Registry.schemas, s.policy = .ignore → (again later).ledger.store.rows s.table = later.store.rows s.table) ∧
      ∀ s ∈ Registry.schemas,
        (again (original.carryOut .fresh).2).ledger.store.rows s.table = (original.carryOut .fresh).2.store.rows s.table := by
  intro indicator batch original other later again
  have hok : (original.carryOut .fresh).1 = .ok (.rows 4) := by
    have hcount : ((original.carryOut .fresh).1.toOption.bind fun | .rows n => some n | _ => none) = some 4 := by
      decide +kernel
    obtain ⟨answer, hanswer, hrows⟩ := Option.bind_eq_some_iff.1 hcount
    rw [eq_ok_of_toOption hanswer]
    cases answer <;> cases hrows
    rfl
  have hother (e : other = .createTables true) : ∃ f, Outages.at? [] .connect = some f := by
    simp only [other, reduceCtorEq] at e
  have hlater : (original.carryOut .fresh).2.Leads later := .call (.refl _) 1000 false [] other hother
  have hsize : (1 : Int) ≤ 2 := by decide
  obtain ⟨hresult, -, hkept, -⟩ := replay_is_idempotent .fresh original rfl hok hlater hsize true []
  obtain ⟨-, -, -, honce⟩ := replay_is_idempotent .fresh original rfl hok (.refl _) hsize true []
  simp only [again]
  exact ⟨.fresh, hok, hlater, hresult, hkept, honce rfl⟩

end Attempt

end FeedLedger
