import FeedLedger.Proofs.Committed
import FeedLedger.Proofs.Lockstep

namespace FeedLedger

/-- A writer of a built-in schema, with rows that suit its table. -/
def Writer.Suited (table : String) (w : Writer) : Prop :=
  ∃ t conflict, Registry.Entry table w.schema t conflict ∧
    w.statement = ⟨t, t.columnNames.filter (w.schema.writeColumns.contains ·), conflict⟩ ∧
    ∀ p ∈ w.pending, w.schema.Takes t p

namespace Writer

variable {r : Record} {v : ValidRecord} {w : Writer}

theorem suited_make (hv : r.validate (Registry.schema? r.table) = .ok v) {chunkSize : Int} {batch : String}
    (hw : make v.schema Batch.dialect chunkSize batch = .ok w) : w.Suited v.schema.table := by
  obtain ⟨hknown, -⟩ := Batch.schema?_of_validate hv
  obtain ⟨t, conflict, e⟩ := Registry.entry_of_schema? hknown
  simp only [make] at hw
  split at hw
  · cases hw
  rw [e.insert_ok] at hw
  cases hw
  refine ⟨t, conflict, e, rfl, ?_⟩
  intro p hp
  cases hp

theorem Suited.push (hw : w.Suited v.schema.table) (hv : r.validate (Registry.schema? r.table) = .ok v)
    {row : List Value} (hrow : row ∈ v.rows) : (w.push row).Suited v.schema.table := by
  obtain ⟨t, conflict, e, hstatement, htakes⟩ := hw
  obtain ⟨hknown, hvalid⟩ := Batch.schema?_of_validate hv
  have hschema : w.schema = v.schema := by
    rw [e.known] at hknown
    exact Option.some.inj hknown
  have hl : row.length = w.schema.columns.length := by
    rw [hschema]
    exact ValidRecord.length_of_mem_rows hrow
  refine ⟨t, conflict, e, hstatement, ?_⟩
  intro p hp
  rw [pending_push] at hp
  rcases List.mem_append.1 hp with hp | hp
  · exact htakes p hp
  · rw [List.mem_singleton.1 hp]
    apply e.fits.takes_params _ _ hl
    rw [← hschema] at hvalid
    exact Record.suits_of_mem_rows e.fits hvalid hrow

theorem Suited.settle {table : String} (hw : w.Suited table) : w.settle.Suited table := by
  obtain ⟨t, conflict, e, hstatement, -⟩ := hw
  refine ⟨t, conflict, e, hstatement, ?_⟩
  intro p hp
  cases hp

end Writer

namespace Store

/-- Two stores of sound tables, whatever they hold. -/
def BothSound (s t : Store) : Prop := s.Sound ∧ t.Sound

/-- The rows of a chunk decide whether it is taken, not the rows that are stored. -/
theorem alike_of_suited {table : String} {w : Writer} (hw : w.Suited table) (hne : w.pending ≠ []) :
    Alike BothSound ⟨w.statement, w.pending⟩ := by
  obtain ⟨t, conflict, e, hstatement, htakes⟩ := hw
  rintro first second ⟨hfirst, hsecond⟩
  have hsound (before after : Store) (hs : before.Sound)
      (he : before.executeChunk ⟨w.statement, w.pending⟩ = .ok after) : after.Sound := by
    rw [hstatement] at he
    exact e.sound_of_executeChunk hne htakes hs he
  have hexecute (store : Store) (hs : store.Sound) :
      store.executeChunk ⟨w.statement, w.pending⟩ =
        (t.settleAll w.schema.policy w.pending (store.rows table)).map (store.set table) := by
    rw [hstatement]
    exact e.executeChunk_eq hne htakes hs
  rcases e.fits.settleAll_cases htakes (first.rows table) with ⟨hlarge, he⟩ | ⟨hsmall, rows, he⟩
  · rcases e.fits.settleAll_cases htakes (second.rows table) with ⟨-, he'⟩ | ⟨hsmall, -⟩
    · right
      refine ⟨.integerTooLarge, ?_, ?_⟩
      · rw [hexecute first hfirst, he]
        rfl
      · rw [hexecute second hsecond, he']
        rfl
    · obtain ⟨p, hp, hover⟩ := hlarge
      exact absurd hover (hsmall p hp)
  · rcases e.fits.settleAll_cases htakes (second.rows table) with ⟨⟨p, hp, hover⟩, -⟩ | ⟨-, rows', he'⟩
    · exact absurd hover (hsmall p hp)
    · left
      have hafter : first.executeChunk ⟨w.statement, w.pending⟩ = .ok (first.set table rows) := by
        rw [hexecute first hfirst, he]
        rfl
      have hafter' : second.executeChunk ⟨w.statement, w.pending⟩ = .ok (second.set table rows') := by
        rw [hexecute second hsecond, he']
        rfl
      exact ⟨_, _, hafter, hafter', hsound _ _ hfirst hafter, hsound _ _ hsecond hafter'⟩

theorem alike_of_text {stream : Value} {name : String} (h : stream = .text name) (n : Int) :
    Alike BothSound (Chunk.offset stream n) := by
  rintro first second ⟨hfirst, hsecond⟩
  have hname : Binding.forText stream = .cell (.text name) := by
    rw [h]
    rfl
  have he := executeChunk_offset hfirst.laid hname n
  have he' := executeChunk_offset hsecond.laid hname n
  by_cases hn : Binding.Fits n
  · rw [if_pos hn] at he he'
    exact .inl ⟨_, _, he, he', hfirst.executeOffset he, hsecond.executeOffset he'⟩
  · rw [if_neg hn] at he he'
    exact .inr ⟨_, he, he'⟩

end Store

/-- A batch under the built-in schemas runs side by side with itself on any two stores. -/
theorem Lockstep.on_sound_stores {c : Coordinator} (hc : c.schemas = Registry.schema?) {o : BatchOrigin} {name : String}
    (ho : o.stream = .text name) (outages : Outages) :
    Lockstep (fun _ => False) Store.BothSound Writer.Suited c outages outages o where
  outage := fun _ => .inl rfl
  rollback := by simp
  chunk := fun _ _ hw hne => Store.alike_of_suited hw hne
  offset := Store.alike_of_text ho o.offset
  make := by
    rw [hc]
    exact fun _ _ _ hv hw => Writer.suited_make hv hw
  push := by
    rw [hc]
    exact fun _ _ _ _ hv hw hrow => hw.push hv hrow
  settle := fun _ _ hw => hw.settle

namespace Ledger

variable {c : Coordinator} {l m : Ledger} {stream offset : Value} {name : String}

theorem ingest_alike (hc : c.schemas = Registry.schema?) (hs : stream = .text name) (hl : l.store.Sound)
    (hm : m.store.Sound) (outages : Outages) (records : List (Except Failure Record)) (offset : Value)
    (inserts : List String) :
    (l.ingest c outages stream records offset inserts).result =
      (m.ingest c outages stream records offset inserts).result := by
  cases ho : checkArguments stream offset with
  | error f => simp only [ingest, ho]
  | ok o =>
    obtain ⟨-, hstream, -⟩ := checkArguments_ok ho
    have hlockstep := Lockstep.on_sound_stores hc (hstream.trans hs) outages
    rcases hlockstep.ingest (Sieved.refl c.schemas records) ⟨hl, hm⟩ ho inserts with ⟨g, -, hbreaks⟩ | ⟨hresult, -⟩
    · exact hbreaks.elim
    · exact hresult

theorem setOffset_alike (hc : c.schemas = Registry.schema?) (hs : stream = .text name) (hl : l.store.Sound)
    (hm : m.store.Sound) (outages : Outages) (offset : Value) (inserts : List String) :
    (l.setOffset c outages stream offset inserts).result = (m.setOffset c outages stream offset inserts).result := by
  cases ho : checkArguments stream offset with
  | error f => simp only [setOffset, ho]
  | ok o =>
    obtain ⟨-, hstream, -⟩ := checkArguments_ok ho
    have hlockstep := Lockstep.on_sound_stores hc (hstream.trans hs) outages
    rcases hlockstep.setOffset ⟨hl, hm⟩ ho inserts with ⟨g, -, hbreaks⟩ | ⟨hresult, -⟩
    · exact hbreaks.elim
    · exact hresult

end Ledger

namespace Attempt

variable {a : Attempt} {calls : List Attempt} {l m : Ledger}

/-- A call under the built-in schemas that names its stream by a text. -/
structure Plain (a : Attempt) : Prop where
  builtin : a.schemas = Registry.schema?
  named : ∃ name, a.write.stream = .text name

/-- What a call is answered does not depend on the store. -/
theorem Plain.answer_eq (ha : a.Plain) (hl : l.store.Sound) (hm : m.store.Sound) :
    (a.carryOut l).1 = (a.carryOut m).1 := by
  have hc : a.coordinator.schemas = Registry.schema? := ha.builtin
  obtain ⟨name, hname⟩ := ha.named
  simp only [carryOut]
  cases hw : a.write with
  | ingest stream records offset =>
    rw [hw] at hname
    have hresult := Ledger.ingest_alike hc hname hl hm a.outages records offset a.inserts
    exact congrArg (Except.map Answer.rows) hresult
  | submit workers batch =>
    rw [hw] at hname
    rcases Ledger.submit_single a.coordinator a.outages workers batch with ⟨f, hf⟩ | hturn
    · simp only [(hf l).1, (hf m).1]
    · simp only [(hturn l).1, (hturn m).1]
      simp only [Ledger.takeTurn]
      split
      · rfl
      · have hresult := Ledger.ingest_alike hc hname hl hm a.outages batch.records batch.offset []
        exact congrArg (Except.map Answer.rows) hresult
  | setOffset stream offset =>
    rw [hw] at hname
    have hresult := Ledger.setOffset_alike hc hname hl hm a.outages offset a.inserts
    exact congrArg (Except.map fun _ => Answer.done) hresult

theorem sound_carryOut (hb : a.schemas = Registry.schema?) (hl : l.store.Sound) : (a.carryOut l).2.store.Sound := by
  rcases committed_cases hb l with ⟨f, -, hs⟩ | ⟨o, chunks, -, hc⟩
  · rw [hs]
    exact hl
  · exact hc.commits.sound hl

/-- Each call of a run is answered as at any other sound store. -/
theorem results_eq_map (hp : ∀ a ∈ calls, a.Plain) (hl : l.store.Sound) (hm : m.store.Sound) :
    (run l calls).1 = calls.map fun a => (a.carryOut m).1 := by
  induction calls generalizing l with
  | nil => rfl
  | cons a rest ih =>
    obtain ⟨ha, hrest⟩ := List.forall_mem_cons.1 hp
    have hsound := sound_carryOut ha.builtin hl
    rw [results_cons, List.map_cons, ih hrest hsound, ha.answer_eq hl hm]

theorem returning_eq_filter (hp : ∀ a ∈ calls, a.Plain) (hl : l.store.Sound) (hm : m.store.Sound) :
    returning l calls = calls.filter fun a => (a.carryOut m).1.isOk := by
  induction calls generalizing l with
  | nil => rfl
  | cons a rest ih =>
    obtain ⟨ha, hrest⟩ := List.forall_mem_cons.1 hp
    have hsound := sound_carryOut ha.builtin hl
    rw [returning, List.filter_cons, ih hrest hsound, ha.answer_eq hl hm]

end Attempt

end FeedLedger
