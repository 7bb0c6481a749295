import FeedLedger.Proofs.Constraints
import FeedLedger.Proofs.Oversized

namespace FeedLedger

/-- Whether a failure says that a row breaks a constraint of its table. -/
def Failure.isIntegrity : Failure → Bool
  | .database .integrity | .persistence _ .integrity => true
  | _ => false

@[simp] theorem Failure.isIntegrity_during (action : StoreAction) (f : Failure) :
    (f.during action).isIntegrity = f.isIntegrity := by
  cases f with
  | database fault => cases fault <;> rfl
  | _ => rfl

/-- No outage says by itself that a constraint is broken. -/
def Outages.BreakNone (outages : Outages) : Prop := ∀ p f, outages.at? p = some f → f.isIntegrity = false

/-- The source of some records does not fail with a broken constraint of its own. -/
def BreakNone (records : List (Except Failure Record)) : Prop := ∀ f, .error f ∈ records → f.isIntegrity = false

section Batches

variable {outages : Outages} {o : BatchOrigin} {records : List (Except Failure Record)} {chunkSize : Int}
  {autocommitting : Bool} {before : Store} {inserts : List String} {b : Batch} {f : Failure}

theorem Batch.not_integrity_of_write (hout : outages.BreakNone) (hrecords : BreakNone records) (hs : before.Sound)
    (hw : Batch.write (.builtin chunkSize autocommitting) outages o records ⟨⟨before, inserts, []⟩, [], []⟩ =
      .error f b) : f.isIntegrity = false := by
  obtain ⟨executed, last, -, hexec, hbegins, hfails⟩ := write_error hw
  have hstems : ∀ l ∈ executed ++ last.toList,
      Stems (IngestKey.batchName o.stream o.offset) (validRecords Registry.schema? (delivered records)) l :=
    fun l hl => hbegins.stems hl
  cases hfails with
  | source hsource => exact hrecords f hsource
  | @writer v hv hm =>
    obtain ⟨t, conflict, e⟩ := Registry.entry_of_schema? (schema?_of_valid hv).1
    simp only [Writer.make] at hm
    rw [e.insert_ok] at hm
    split at hm
    · cases hm
      rfl
    · cases hm
  | @chunk k hstops =>
    rcases hstops with hk | ⟨p, hp⟩
    · obtain ⟨hsound, -⟩ := settled_of_executeChunks (fun l hl => hstems l (List.mem_append_left _ hl)) hs hexec
      obtain ⟨-, rfl⟩ := (hstems k (by simp)).executeChunk_error hsound hk
      rfl
    · exact hout p f hp

/-- A batch that is written leaves a store as sound as it was, whatever outages it came through. -/
theorem Batch.sound_of_write {u : Unit} (hs : before.Sound)
    (hw : Batch.write (.builtin chunkSize autocommitting) outages o records ⟨⟨before, inserts, []⟩, [], []⟩ =
      .ok u b) : b.work.store.Sound := by
  obtain ⟨rs, rfl, hexec, hcovers, -⟩ := write_ok hw
  exact (settled_of_executeChunks (fun k hk => hcovers.stems hk) hs hexec).1

/-- Only a stream without a name would leave its column empty. -/
theorem Binding.forText_ne_null {v : Value} (he : v.isEmpty = false) (hn : v ≠ .float .nan) :
    Binding.forText v ≠ .cell .null := by
  cases v with
  | null => cases he
  | int n =>
    simp only [Binding.forText, Binding.fitting]
    split <;> simp
  | float x =>
    cases x with
    | nan => exact absurd rfl hn
    | _ => simp [Binding.forText, Binding.doubleText]
  | _ => simp [Binding.forText]

theorem Work.not_integrity_of_storeOffset (hout : outages.BreakNone) {stream : Value} {n : Int} {w w' : Work}
    (hl : w.store.Laid) (hstream : Binding.forText stream ≠ .cell .null)
    (h : w.storeOffset outages stream n = .error f w') : f.isIntegrity = false := by
  simp only [storeOffset] at h
  split at h
  · rename_i g hg
    cases h
    exact hout _ f hg
  rcases (stops_of_execute_error h).2 with hrefused | ⟨p, hp⟩
  · rcases Store.executeChunk_offset_error hl hstream hrefused with rfl | rfl
    · rfl
    · rfl
  · exact hout p f hp

theorem Settled.not_integrity_of_rolledBack (hout : outages.BreakNone) {level : String} {phase : BatchPhase}
    {g : Failure} (hg : g.isIntegrity = false) {w : Work} {malformed : List (String × Nat)}
    (h : (rolledBack outages o level phase g before w malformed).result = .error f) : f.isIntegrity = false := by
  simp only [rolledBack] at h
  split at h
  · cases h
    exact hg
  · cases h
    exact hg
  · rename_i hrollback
    cases h
    exact hout _ f hrollback

theorem Link.initialLevel_store (autocommitting : Bool) (f : Failure) :
    (Link.store autocommitting).initialLevel.2 ≠ .error f := by
  cases autocommitting with
  | false => exact fun h => by cases h
  | true => exact fun h => by cases h

theorem Settled.not_integrity_of_run (hout : outages.BreakNone) (hrecords : BreakNone records) (hs : before.Sound)
    (hstream : Binding.forText o.stream ≠ .cell .null)
    (h : (run (.builtin chunkSize autocommitting) outages o records before inserts).result = .error f) :
    f.isIntegrity = false := by
  simp only [run] at h
  split at h
  · rename_i g hg
    cases h
    exact hout _ f hg
  split at h
  · rename_i g hg
    exact absurd hg (Link.initialLevel_store autocommitting g)
  simp only [ofBatch] at h
  split at h
  · rename_i hw
    exact not_integrity_of_rolledBack hout (Batch.not_integrity_of_write hout hrecords hs hw) h
  rename_i hw
  have hsound := Batch.sound_of_write hs hw
  split at h
  · rename_i ho
    exact not_integrity_of_rolledBack hout (Work.not_integrity_of_storeOffset hout hsound.laid hstream ho) h
  simp only [committed] at h
  split at h
  · rename_i g hg
    cases h
    exact hout _ f hg
  · cases h

namespace Ledger

theorem not_integrity_of_checkArguments {stream offset : Value} (h : checkArguments stream offset = .error f) :
    f.isIntegrity = false := by
  simp only [checkArguments] at h
  split at h
  · cases h
    rfl
  split at h
  · split at h
    · cases h
    · cases h
      rfl
  · cases h
    rfl

theorem forText_of_checkArguments {stream offset : Value} (h : checkArguments stream offset = .ok o)
    (hstream : stream ≠ .float .nan) : Binding.forText o.stream ≠ .cell .null := by
  obtain ⟨hempty, hname, -⟩ := checkArguments_ok h
  rw [hname]
  exact Binding.forText_ne_null hempty hstream

theorem not_integrity_of_ingest (hout : outages.BreakNone) (hrecords : BreakNone records) {l : Ledger}
    (hs : l.store.Sound) {stream offset : Value} (hstream : stream ≠ .float .nan)
    (h : (l.ingest (.builtin chunkSize autocommitting) outages stream records offset inserts).result = .error f) :
    f.isIntegrity = false := by
  cases ho : checkArguments stream offset with
  | error g =>
    rw [ingest_refused ho] at h
    cases h
    exact not_integrity_of_checkArguments ho
  | ok o =>
    obtain ⟨hresult, -⟩ := ingest_begun ho (.builtin chunkSize autocommitting) outages records l inserts
    rw [hresult, batchAnswer] at h
    split at h
    · cases h
    rename_i g hg
    cases h
    rw [Failure.isIntegrity_during]
    exact Settled.not_integrity_of_run hout hrecords hs (forText_of_checkArguments ho hstream) hg

theorem not_integrity_of_storeOffset (hout : outages.BreakNone) (hl : before.Laid)
    (hstream : Binding.forText o.stream ≠ .cell .null)
    (h : (storeOffset (.builtin chunkSize autocommitting) outages o before inserts).1 = .error f) :
    f.isIntegrity = false := by
  simp only [storeOffset] at h
  split at h
  · rename_i hg
    cases h
    exact hout _ _ hg
  split at h
  · rename_i g hg
    exact absurd hg (Link.initialLevel_store autocommitting g)
  split at h
  · rename_i g w hw
    cases h
    cases hrollback : outages.at? .rollback with
    | some g => exact hout _ g hrollback
    | none => exact Work.not_integrity_of_storeOffset hout hl hstream hw
  split at h
  · rename_i hg
    cases h
    exact hout _ _ hg
  · cases h

theorem not_integrity_of_setOffset (hout : outages.BreakNone) {l : Ledger} (hl : l.store.Laid) {stream offset : Value}
    (hstream : stream ≠ .float .nan)
    (h : (l.setOffset (.builtin chunkSize autocommitting) outages stream offset inserts).result = .error f) :
    f.isIntegrity = false := by
  simp only [setOffset] at h
  split at h
  · rename_i ho
    cases h
    exact not_integrity_of_checkArguments ho
  rename_i o ho
  split at h
  swap
  · cases h
  rename_i g after hs
  cases h
  rw [Failure.isIntegrity_during]
  exact not_integrity_of_storeOffset hout hl (forText_of_checkArguments ho hstream) (congrArg Prod.fst hs)

end Ledger

/-- A batch that does not itself break a constraint: its stream has a name, and its source does not fail with one. -/
def Submission.BreaksNone (b : Submission) : Prop := b.stream ≠ .float .nan ∧ BreakNone b.records

/-- What stands in the queues of lines was queued or stood there before. -/
theorem Turns.mem_of_mem_enqueue {α : Type} {key : α → String} {l : List α} {queue : List (String × List α)}
    {row : String × List α} (hrow : row ∈ l.foldl (enqueue key) queue) {a : α} (ha : a ∈ row.2) :
    a ∈ l ∨ ∃ other ∈ queue, a ∈ other.2 := by
  induction l generalizing queue with
  | nil => exact .inr ⟨row, hrow, ha⟩
  | cons b rest ih =>
    rcases ih hrow with hm | ⟨other, hother, hm⟩
    · exact .inl (List.mem_cons_of_mem b hm)
    rcases Keyed.mem_put hother with rfl | hother
    · rcases List.mem_append.1 hm with hm | hm
      · cases hget : Keyed.get? (key b) queue with
        | none =>
          rw [hget] at hm
          cases hm
        | some earlier =>
          rw [hget] at hm
          exact .inr ⟨_, Keyed.mem_of_get? hget, hm⟩
      · rw [List.mem_singleton.1 hm]
        exact .inl List.mem_cons_self
    · exact .inr ⟨other, hother, hm⟩

theorem Turns.mem_of_mem_order {α : Type} {key : α → String} {l : List α} {a : α} (h : a ∈ order key l) : a ∈ l := by
  rw [order, (serve_perm _).mem_iff, List.mem_flatten] at h
  obtain ⟨row, hrow, ha⟩ := h
  obtain ⟨entry, hentry, rfl⟩ := List.mem_map.1 hrow
  rcases mem_of_mem_enqueue hentry ha with hm | ⟨other, hother, -⟩
  · exact hm
  · cases hother

namespace Ledger

variable {queue : List (Submission × Nat)} {l : Ledger}

theorem not_integrity_of_takeTurn (hout : outages.BreakNone) {s : Submission} (hb : s.BreaksNone)
    (hs : l.store.Sound) (h : (l.takeTurn (.builtin chunkSize autocommitting) outages s inserts).result = .error f) :
    f.isIntegrity = false := by
  simp only [takeTurn] at h
  split at h
  · rename_i g hturn
    cases h
    simp only [Submission.turnFailure?] at hturn
    split at hturn
    · cases hturn
      rfl
    · cases hturn
      rfl
    · cases hturn
  · exact not_integrity_of_ingest hout hb.2 hs hb.1 h

theorem sound_of_takeTurn (hs : l.store.Sound) (chunkSize : Int) (autocommitting : Bool) (outages : Outages)
    (s : Submission) (inserts : List String) :
    (l.takeTurn (.builtin chunkSize autocommitting) outages s inserts).ledger.store.Sound := by
  rcases takeTurn_cases (Coordinator.default_ne_autocommit chunkSize autocommitting) outages s l inserts with
    ⟨g, -, hsame⟩ | ⟨o, rs, chunks, -, -, -, hc⟩
  · rw [hsame]
    exact hs
  · exact hc.sound hs

end Ledger

/-- A result that is no broken constraint and, where it is of several batches, tells none. -/
def KeepsConstraints {α : Type} (told : α → Prop) : Except Failure α → Prop
  | .error f => f.isIntegrity = false
  | .ok a => told a

theorem keepsConstraints_iff {α : Type} {told : α → Prop} {r : Except Failure α} :
    KeepsConstraints told r ↔ (∀ f, r = .error f → f.isIntegrity = false) ∧ ∀ a, r = .ok a → told a := by
  cases r with
  | error f => simp [KeepsConstraints]
  | ok a => simp [KeepsConstraints]

theorem keepsConstraints_map {α β : Type} {told : β → Prop} {g : α → β} {r : Except Failure α} :
    KeepsConstraints told (r.map g) ↔ KeepsConstraints (fun a => told (g a)) r := by
  cases r with
  | error f => rfl
  | ok a => rfl

namespace Ledger

variable {queue : List (Submission × Nat)} {l : Ledger}

theorem takeTurn_keepsConstraints (hout : outages.BreakNone) {s : Submission} (hb : s.BreaksNone)
    (hs : l.store.Sound) (chunkSize : Int) (autocommitting : Bool) (inserts : List String) :
    KeepsConstraints (fun _ => True) (l.takeTurn (.builtin chunkSize autocommitting) outages s inserts).result :=
  keepsConstraints_iff.2 ⟨fun _ h => not_integrity_of_takeTurn hout hb hs h, fun _ _ => trivial⟩

/-- Batches that are taken in one after the other all start from sound stores. -/
theorem ingestAll_keepsConstraints (hout : outages.BreakNone) (hqueue : ∀ entry ∈ queue, entry.1.BreaksNone)
    (hs : l.store.Sound) (chunkSize : Int) (autocommitting : Bool) (inserts : List String) :
    KeepsConstraints (fun results => ∀ entry ∈ results, KeepsConstraints (fun _ => True) entry.2)
      (l.ingestAll (.builtin chunkSize autocommitting) outages queue inserts).result := by
  induction queue generalizing l inserts with
  | nil => exact fun entry hentry => by cases hentry
  | cons entry rest ih =>
    obtain ⟨s, number⟩ := entry
    obtain ⟨hfirst, hlater⟩ := List.forall_mem_cons.1 hqueue
    have hturn := takeTurn_keepsConstraints hout hfirst hs chunkSize autocommitting inserts
    have hsound := sound_of_takeTurn hs chunkSize autocommitting outages s inserts
    rw [ingestAll_cons]
    split
    · rfl
    · apply keepsConstraints_map.2
      refine (keepsConstraints_iff.2 ?_)
      obtain ⟨herror, hok⟩ := keepsConstraints_iff.1 (ih hlater hsound _)
      exact ⟨herror, fun results h => List.forall_mem_cons.2 ⟨hturn, hok results h⟩⟩

theorem submit_keepsConstraints (hout : outages.BreakNone) {batches : List Submission}
    (hb : ∀ b ∈ batches, b.BreaksNone) (hs : l.store.Sound) (chunkSize : Int) (autocommitting : Bool) (workers : Int) :
    KeepsConstraints (fun results => ∀ result ∈ results, KeepsConstraints (fun _ => True) result)
      (l.submit (.builtin chunkSize autocommitting) outages workers batches).result := by
  have hqueue : ∀ entry ∈ Submission.order batches, entry.1.BreaksNone := by
    intro entry hentry
    exact hb _ (List.fst_mem_of_mem_zipIdx (Turns.mem_of_mem_order hentry))
  have hall := ingestAll_keepsConstraints hout hqueue hs chunkSize autocommitting []
  simp only [submit]
  split
  · rename_i g hsource
    obtain ⟨b, hmem, hfailure⟩ := List.exists_of_findSome?_eq_some hsource
    obtain ⟨record, hrecord, hfound⟩ := List.exists_of_findSome?_eq_some hfailure
    split at hfound
    · cases hfound
      exact (hb b hmem).2 g hrecord
    · cases hfound
  split
  · rfl
  · apply keepsConstraints_map.2
    obtain ⟨herror, hok⟩ := keepsConstraints_iff.1 hall
    refine keepsConstraints_iff.2 ⟨herror, ?_⟩
    intro entries h result hresult
    obtain ⟨entry, hentry, rfl⟩ := List.mem_map.1 hresult
    exact hok entries h entry ((Ascending.sort_perm _ entries).mem_iff.1 hentry)

end Ledger

end Batches

namespace Call

/-- The batches of a call; an offset that is set is one without records. -/
def batches : Call → List Submission
  | .ingest stream records offset => [⟨stream, records, offset⟩]
  | .setOffset stream offset => [⟨stream, [], offset⟩]
  | .submit _ batches => batches
  | .createTables _ => []

/-- What is answered to a call holds no broken constraint. -/
def Spares : Answer → Prop
  | .batches results => ∀ result ∈ results, KeepsConstraints (fun _ => True) result
  | _ => True

theorem run_keepsConstraints {outages : Outages} (hout : outages.BreakNone) (c : Call)
    (hb : ∀ b ∈ c.batches, b.BreaksNone) {l : Ledger} (hs : l.store.Sound) (chunkSize : Int) (autocommitting : Bool) :
    KeepsConstraints Spares (c.run (.builtin chunkSize autocommitting) outages l).result := by
  cases c with
  | ingest stream records offset =>
    obtain ⟨hstream, hrecords⟩ := hb _ List.mem_cons_self
    apply keepsConstraints_map.2
    exact keepsConstraints_iff.2
      ⟨fun _ h => Ledger.not_integrity_of_ingest hout hrecords hs hstream h, fun _ _ => trivial⟩
  | setOffset stream offset =>
    obtain ⟨hstream, -⟩ := hb _ List.mem_cons_self
    apply keepsConstraints_map.2
    exact keepsConstraints_iff.2
      ⟨fun _ h => Ledger.not_integrity_of_setOffset hout hs.laid hstream h, fun _ _ => trivial⟩
  | submit workers batches =>
    apply keepsConstraints_map.2
    exact Ledger.submit_keepsConstraints hout hb hs chunkSize autocommitting workers
  | createTables drop =>
    apply keepsConstraints_map.2
    simp only [Ledger.createTables]
    split
    · rename_i hf
      exact hout _ _ hf
    · rename_i hf
      exact hout _ _ hf
    · trivial

end Call

namespace Ledger

/-- No row of a built-in schema breaks a constraint of its table: at every ledger that is reached, the parameters of each
row that a valid record projects to fill the columns of the table, and a key that is taken keeps none of them out. So no
call fails at a broken constraint, or tells of a batch that did, unless an outage or a source says so by itself. -/
theorem no_constraint_is_broken {l : Ledger} (hl : Reached l) :
    (∀ s ∈ Registry.schemas, ∃ t i, Catalog.table? s.table = some t ∧ s.insert Batch.dialect = .ok i ∧
      ∀ r v, Record.validate r (some s) = .ok v → ∀ row ∈ v.rows, ∀ batch n,
        l.store.Admits s t i (Writer.params s batch n row)) ∧
    ∀ outages : Outages, outages.BreakNone → ∀ c : Call, (∀ b ∈ c.batches, b.BreaksNone) →
      ∀ chunkSize autocommitting,
        KeepsConstraints Call.Spares (c.run (.builtin chunkSize autocommitting) outages l).result := by
  constructor
  · intro s hs
    obtain ⟨t, conflict, e⟩ := Registry.entry_of_schema? (Registry.schema?_of_mem hs)
    refine ⟨t, _, e.listed, e.insert_ok, ?_⟩
    intro r v hv row hrow batch n
    have hlength : row.length = s.columns.length := by
      rw [ValidRecord.length_of_mem_rows hrow, Record.schema_of_validate hv]
    have htakes : s.Takes t (Writer.params s batch n row) :=
      e.fits.takes_params batch n hlength (Record.suits_of_mem_rows e.fits hv hrow)
    exact hl.remembers.admits hs e htakes
  · intro outages hout c hb chunkSize autocommitting
    exact c.run_keepsConstraints hout hb hl.sound chunkSize autocommitting

theorem no_constraint_is_broken_at_a_taken_key :
    let indicator (price : Value) : Record :=
      ⟨"indicators", [("symbol", .text "BTC"), ("timestamp", .int 1700000000000), ("close_price", price)]⟩
    let first : Call := .ingest (.text "s") [.ok (indicator (.int 1))] (.int 1)
    let l := (first.run (.builtin 1 false) [] .fresh).ledger
    let again : Call := .submit 2 [⟨.text "s", [.ok (indicator (.int 2))], .int 2⟩,
      ⟨.text "t", [.ok (indicator .null), .ok (indicator (.text "2.5"))], .int 1⟩]
    let outages : Outages := [⟨.commit, .database .operational⟩]
    Reached l ∧ (l.store.rows "indicators").length = 1 ∧
      (∃ v, (indicator (.int 2)).validate (some Registry.indicators) = .ok v ∧ v.rows.length = 1 ∧
        ∃ t i, ∀ row ∈ v.rows, l.store.Admits Registry.indicators t i (Writer.params Registry.indicators "s:2" 0 row)) ∧
      KeepsConstraints Call.Spares (again.run (.builtin 3 true) outages l).result := by
  intro indicator first l again outages
  have hl : Reached l := .call .fresh 1 false [] first
  obtain ⟨hrows, hcalls⟩ := no_constraint_is_broken hl
  have hmem : Registry.indicators ∈ Registry.schemas := by decide +kernel
  have hv : (indicator (.int 2)).validate (some Registry.indicators) =
      .ok ⟨Registry.indicators, (indicator (.int 2)).fieldValues Registry.indicators, indicator (.int 2)⟩ :=
    Record.validate_eq_ok_iff.2 ⟨by decide +kernel, rfl⟩
  have hout : outages.BreakNone := by
    intro p f hf
    obtain ⟨outage, hfound, rfl⟩ := Option.map_eq_some_iff.1 hf
    rw [List.mem_singleton.1 (List.mem_of_find?_eq_some hfound)]
    rfl
  have hagain : ∀ b ∈ again.batches, b.BreaksNone := by
    have hnone : ∀ rs : List Record, BreakNone (rs.map .ok) := by
      intro rs f hf
      obtain ⟨r, -, hr⟩ := List.mem_map.1 hf
      cases hr
    have hname : ∀ name, Value.text name ≠ .float .nan := by
      intro name h
      cases h
    intro b hb
    simp only [again, Call.batches, List.mem_cons, List.not_mem_nil, or_false] at hb
    rcases hb with rfl | rfl
    · exact ⟨hname "s", hnone [indicator (.int 2)]⟩
    · exact ⟨hname "t", hnone [indicator .null, indicator (.text "2.5")]⟩
  refine ⟨hl, by decide +kernel, ⟨_, hv, rfl, ?_⟩, hcalls outages hout again hagain 3 true⟩
  obtain ⟨t, i, -, -, hadmits⟩ := hrows _ hmem
  exact ⟨t, i, fun row hrow => hadmits _ _ hv row hrow "s:2" 0⟩

/-- A row with an integer beyond 64 bits is not skipped where its key is taken: the driver does not pass it on. -/
theorem oversized_row_fails_at_a_taken_key :
    ¬∀ l, Reached l → ∀ s ∈ Registry.schemas, ∀ t i, Catalog.table? s.table = some t → s.insert Batch.dialect = .ok i →
      ∀ r v, Record.validate r (some s) = .ok v → ∀ row ∈ v.rows, ∀ batch n, ∀ q ∈ l.store.rows s.table,
        (∀ k ∈ s.conflictKeys, Keyed.get? k (t.bound (Writer.params s batch n row)) = some (.cell (q.cell k))) →
          ∃ store, l.store.executeChunk ⟨i, [Writer.params s batch n row]⟩ = .ok store := by
  intro h
  let l := ((Call.ingest (.text "s") [.ok (Record.sentiment (.int 50))] (.int 1)).run (.builtin 1000 false) [] .fresh).ledger
  let r := Record.sentiment (.int 9223372036854775808)
  let row := (ValidRecord.mk Registry.fearGreedIndex (r.fieldValues Registry.fearGreedIndex) r).rowOf
    (r.fieldValues Registry.fearGreedIndex)
  let q := (l.store.rows "fear_greed_index").headD ⟨[]⟩
  have hl : Reached l := .call .fresh 1000 false [] _
  have hs : Registry.fearGreedIndex ∈ Registry.schemas := by decide +kernel
  obtain ⟨t, conflict, e⟩ := Registry.entry_of_schema? (Registry.schema?_of_mem hs)
  obtain rfl : Catalog.fearGreedIndexTable = t := by
    have hlisted : Catalog.table? "fear_greed_index" = some Catalog.fearGreedIndexTable := by decide +kernel
    exact Option.some.inj (hlisted.symm.trans e.listed)
  have hv : r.validate (some Registry.fearGreedIndex) =
      .ok ⟨Registry.fearGreedIndex, r.fieldValues Registry.fearGreedIndex, r⟩ :=
    Record.validate_eq_ok_iff.2 ⟨by decide +kernel, rfl⟩
  have hq : q ∈ l.store.rows "fear_greed_index" := by decide +kernel
  have htaken : ∀ k ∈ Registry.fearGreedIndex.conflictKeys,
      Keyed.get? k (Catalog.fearGreedIndexTable.bound (Writer.params Registry.fearGreedIndex "s:2" 0 row)) =
        some (.cell (q.cell k)) := by decide +kernel
  have hlarge : (Writer.params Registry.fearGreedIndex "s:2" 0 row).Oversized :=
    ⟨("score", .int 9223372036854775808), List.mem_cons_self, _, rfl, by decide⟩
  have htakes : Registry.fearGreedIndex.Takes Catalog.fearGreedIndexTable
      (Writer.params Registry.fearGreedIndex "s:2" 0 row) :=
    e.fits.takes_params "s:2" 0 rfl (Record.suits_of_mem_rows e.fits hv List.mem_cons_self)
  obtain ⟨store, hok⟩ := h l hl _ hs _ _ e.listed e.insert_ok r _ hv row List.mem_cons_self "s:2" 0 q hq htaken
  rw [(hl.remembers.admits hs e htakes).oversized hlarge] at hok
  cases hok

end Ledger

end FeedLedger
