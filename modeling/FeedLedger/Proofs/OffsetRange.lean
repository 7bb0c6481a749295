import FeedLedger.Proofs.Admission
import FeedLedger.Proofs.Lockstep

namespace FeedLedger

/-- A ledger that calls on the session's store lead to, each under schemas of its own. -/
inductive Opened : Ledger → Prop
  | fresh : Opened Ledger.fresh
  | call {l : Ledger} (h : Opened l) (schemas : String → Option Schema) (chunkSize : Int) (autocommitting : Bool)
      (outages : Outages) (c : Call) :
      Opened (c.run ⟨schemas, chunkSize, Link.store autocommitting⟩ outages l).ledger

theorem Opened.laid {l : Ledger} (h : Opened l) : l.store.Laid := by
  induction h with
  | fresh => exact Store.laid_empty
  | call h schemas chunkSize autocommitting outages c ih =>
    have hdefault := Link.default_store_ne_autocommit autocommitting
    exact Ledger.run_keeps hdefault c (fun _ => Store.laid_empty) (fun _ _ _ _ _ hc hl => hc.laid_after hl) ih

/-- The connection fails with faults of the database, if at all. -/
def Outages.Faults (outages : Outages) : Prop := ∀ p f, outages.at? p = some f → ∃ fault, f = .database fault

theorem Outages.faults_nil : Faults [] := by
  intro p f h
  cases h

namespace Reply

variable {α : Type}

/-- The call returns, and the stream is found at the offset afterwards. -/
def Stores (r : Reply α) (name : String) (n : Int) : Prop :=
  (∃ a, r.result = .ok a) ∧ Ledger.getOffset [] (.text name) r.ledger = .ok (some n)

/-- The call fails and leaves the store as it was. -/
def Refuses (r : Reply α) (f : Failure) (before : Store) : Prop := r.result = .error f ∧ r.ledger.store = before

/-- What an offset comes to by its size: it is stored if it fits into 64 bits, and else the driver refuses it. -/
def Sizes (r : Reply α) (name : String) (n : Int) (before : Store) : Prop :=
  if n ≤ Binding.greatest then r.Stores name n else r.Refuses .integerTooLarge before

/-- The call fails with a fault of the database, which is told with the stream and the offset that it was about. -/
def Interrupted (r : Reply α) (action : StoreAction) (before : Store) : Prop :=
  ∃ fault, r.Refuses (.persistence action fault) before

end Reply

theorem Reply.Sizes.congr {α : Type} {r r' : Reply α} {name : String} {n : Int} {before : Store}
    (h : r.Sizes name n before) (hresult : r'.result = r.result) (hstore : r'.ledger.store = r.ledger.store) :
    r'.Sizes name n before := by
  simp only [Sizes, Stores, Refuses, Ledger.getOffset, Ledger.readStore] at h ⊢
  rw [hresult, hstore]
  exact h

/-- Batches on one store go along with batches without outages, unless a fault of the database breaks them off. -/
theorem Lockstep.of_faults {outages : Outages} (h : outages.Faults) (c : Coordinator) (o : BatchOrigin) :
    Lockstep (fun f => ∃ fault, f = .database fault) Eq (fun _ _ => True) c outages [] o := by
  apply Lockstep.on_same_store
  · intro p
    cases hp : outages.at? p with
    | none => exact .inl rfl
    | some f => exact .inr ⟨f, rfl, h p f hp, rfl⟩
  · intro f g _ hg
    exact h .rollback g hg

namespace Ledger

variable {l : Ledger} {c : Coordinator} {autocommitting : Bool} {outages : Outages} {name : String} {n : Int}
  {records : List (Except Failure Record)} {inserts : List String} {o : BatchOrigin}

theorem checkArguments_text (h : name ≠ "") (h0 : 0 ≤ n) :
    checkArguments (.text name) (.int n) = .ok ⟨.text name, n⟩ := by
  simp [checkArguments, Value.isEmpty, h, h0]

theorem checkArguments_text_error (h : name = "" ∨ n < 0) :
    ∃ f, (f = .emptyStream ∨ f = .invalidOffset (.int n)) ∧ checkArguments (.text name) (.int n) = .error f := by
  by_cases hname : name = ""
  · exact ⟨.emptyStream, .inl rfl, by simp [checkArguments, Value.isEmpty, hname]⟩
  · have hn : ¬0 ≤ n := by
      have := h.resolve_left hname
      omega
    exact ⟨.invalidOffset (.int n), .inr rfl, by simp [checkArguments, Value.isEmpty, hname, hn]⟩

theorem fits_iff (h0 : 0 ≤ n) : Binding.Fits n ↔ n ≤ Binding.greatest := by
  constructor
  · exact fun h => h.2
  · intro h
    refine ⟨?_, h⟩
    unfold Binding.least
    omega

/-- Without outages the size of an offset decides what becomes of it. -/
theorem setOffset_sizes (hl : l.store.Laid) (hc : c.link = Link.store autocommitting) (hname : name ≠ "")
    (h0 : 0 ≤ n) : (l.setOffset c [] (.text name) (.int n) inserts).Sizes name n l.store := by
  have hchunk : l.store.executeChunk (Chunk.offset (.text name) n) =
      if Binding.Fits n then .ok (l.store.withOffset name n) else .error .integerTooLarge :=
    Store.executeChunk_offset hl rfl n
  have hlevel : ∃ level, c.link.initialLevel.2 = .ok level := by
    rw [hc]
    cases autocommitting
    · exact ⟨_, rfl⟩
    · exact ⟨_, rfl⟩
  obtain ⟨level, hlevel⟩ := hlevel
  simp only [Reply.Sizes, ← fits_iff h0]
  simp only [setOffset, checkArguments_text hname h0, storeOffset, Outages.at?_nil, hlevel]
  cases hw : Work.storeOffset [] (.text name) n ⟨l.store, inserts, []⟩ with
  | ok u w =>
    have hstore : l.store.executeChunk (Chunk.offset (.text name) n) = .ok w.store :=
      Work.executeChunk_of_storeOffset hw
    rw [hchunk] at hstore
    split at hstore
    · rename_i hfits
      have hafter : w.store = l.store.withOffset name n := (Except.ok.inj hstore).symm
      rw [if_pos hfits]
      refine ⟨⟨(), rfl⟩, getOffset_of_lookUp ?_⟩
      simp only [hafter]
      exact Store.lookUp_withOffset rfl l.store n
    · cases hstore
  | error f w =>
    have hstore : l.store.executeChunk (Chunk.offset (.text name) n) = .error f :=
      Work.executeChunk_of_execute_error hw
    rw [hchunk] at hstore
    split at hstore
    · cases hstore
    · rename_i hfits
      cases hstore
      rw [if_neg hfits]
      exact ⟨rfl, rfl⟩

theorem ingest_sizes (hl : l.store.Laid) (hc : c.link = Link.store autocommitting) (hname : name ≠ "") (h0 : 0 ≤ n)
    {b : Batch}
    (hw : Batch.write c [] ⟨.text name, n⟩ records ⟨⟨l.store, inserts, []⟩, [], []⟩ = .ok () b) :
    (l.ingest c [] (.text name) records (.int n) inserts).Sizes name n l.store := by
  obtain ⟨rs, -, hexec, hcovers, -⟩ := Batch.write_ok hw
  have hlaid : b.work.store.Laid := by
    refine hl.executeChunks ?_ hexec
    intro k hk
    obtain ⟨v, -, hi⟩ := hcovers.stated k hk
    exact Schema.table_mem_of_insert hi
  have hrun := Settled.run_of_write_ok hc hw
  have hchunk : b.work.store.executeChunk (Chunk.offset (.text name) n) =
      if Binding.Fits n then .ok (b.work.store.withOffset name n) else .error .integerTooLarge :=
    Store.executeChunk_offset hlaid rfl n
  rw [hchunk] at hrun
  simp only [Reply.Sizes, ← fits_iff h0]
  simp only [ingest, checkArguments_text hname h0]
  split
  · rename_i hfits
    rw [if_pos hfits] at hrun
    simp only [hrun.1]
    refine ⟨⟨_, rfl⟩, getOffset_of_lookUp ?_⟩
    simp only [hrun.2]
    exact Store.lookUp_withOffset rfl b.work.store n
  · rename_i hfits
    rw [if_neg hfits] at hrun
    simp only [hrun.1]
    exact ⟨rfl, hrun.2⟩

/-- An offset that is no negative integer is stored if it fits into 64 bits and its rows can be stored; else the driver
refuses it. What the connection fails with is told with the stream and the offset, and leaves the store alone. -/
theorem offset_is_stored_within_64_bits {l : Ledger} (hl : Opened l) (schemas : String → Option Schema)
    (chunkSize : Int) (autocommitting : Bool) {outages : Outages} (hout : outages.Faults) (name : String) (n : Int)
    (records : List (Except Failure Record)) (inserts : List String) :
    let c : Coordinator := ⟨schemas, chunkSize, Link.store autocommitting⟩
    let set := l.setOffset c outages (.text name) (.int n) inserts
    let batch := l.ingest c outages (.text name) records (.int n) inserts
    let storable := ∃ b, Batch.write c [] ⟨.text name, n⟩ records ⟨⟨l.store, inserts, []⟩, [], []⟩ = .ok () b
    (name = "" ∨ n < 0 → ∃ f, (f = .emptyStream ∨ f = .invalidOffset (.int n)) ∧
      set.result = .error f ∧ set.ledger = l ∧ batch.result = .error f ∧ batch.ledger = l) ∧
    (name ≠ "" → 0 ≤ n →
      (set.Sizes name n l.store ∨ set.Interrupted (.storeOffset (.text name) n) l.store) ∧
      (storable → batch.Sizes name n l.store ∨ batch.Interrupted (.persistBatch (.text name) n) l.store) ∧
      (outages = [] → set.Sizes name n l.store ∧ (storable → batch.Sizes name n l.store))) := by
  intro c set batch storable
  constructor
  · intro hinvalid
    obtain ⟨f, hkind, hf⟩ := checkArguments_text_error hinvalid
    refine ⟨f, hkind, ?_⟩
    simp [set, batch, setOffset, ingest, hf]
  intro hname h0
  have ho : checkArguments (.text name) (.int n) = .ok ⟨.text name, n⟩ := checkArguments_text hname h0
  have hlockstep := Lockstep.of_faults hout c ⟨.text name, n⟩
  have hset : (l.setOffset c [] (.text name) (.int n) inserts).Sizes name n l.store :=
    setOffset_sizes hl.laid rfl hname h0
  have hbatch : storable → (l.ingest c [] (.text name) records (.int n) inserts).Sizes name n l.store := by
    rintro ⟨b, hb⟩
    exact ingest_sizes hl.laid rfl hname h0 hb
  refine ⟨?_, ?_, ?_⟩
  · rcases hlockstep.setOffset (rfl : l.store = l.store) ho inserts with ⟨g, hg, fault, rfl⟩ | ⟨hresult, hstore⟩
    · right
      rcases setOffset_cases c outages (.text name) (.int n) l inserts with ⟨f, -, hs⟩ | ⟨_, -, hok, -⟩
      · exact ⟨fault, hg, hs⟩
      · rw [hok] at hg
        cases hg
    · exact .inl (hset.congr hresult hstore)
  · intro hstorable
    have hsieved := Sieved.refl c.schemas records
    rcases hlockstep.ingest hsieved (rfl : l.store = l.store) ho inserts with
      ⟨g, hg, fault, rfl⟩ | ⟨hresult, hstore, -⟩
    · right
      have hdefault : c.link.default ≠ Link.autocommit := Link.default_store_ne_autocommit autocommitting
      rcases ingest_cases hdefault outages (.text name) (.int n) records l inserts with
        ⟨f, -, hs⟩ | ⟨_, _, _, -, -, hok, -⟩
      · exact ⟨fault, hg, hs⟩
      · rw [hok] at hg
        cases hg
    · exact .inl ((hbatch hstorable).congr hresult hstore)
  · rintro rfl
    exact ⟨hset, hbatch⟩

/-- The greatest offset is stored behind a score, a database that is away is told of, and a negative offset is turned
away. -/
theorem greatest_offset_is_stored :
    let c : Coordinator := ⟨Registry.schema?, 1, Link.store false⟩
    let away : Outages := [⟨.connect, .database .operational⟩]
    let batch := Ledger.fresh.ingest c [] (.text "s") [.ok (.sentiment (.int 50))] (.int Binding.greatest) []
    let refused := Ledger.fresh.setOffset c away (.text "s") (.int 1) []
    let invalid := Ledger.fresh.setOffset c [] (.text "s") (.int (-1)) []
    batch.Stores "s" Binding.greatest ∧ refused.Interrupted (.storeOffset (.text "s") 1) .empty ∧
      invalid.ledger = Ledger.fresh := by
  intro c away batch refused invalid
  have haway : away.Faults := by
    intro p f h
    by_cases hp : OutagePoint.connect = p
    · simp only [Outages.at?, away, hp, List.find?_cons, decide_true, Option.map_some, Option.some.injEq] at h
      exact ⟨.operational, h.symm⟩
    · simp [Outages.at?, away, hp] at h
  obtain ⟨-, hplain⟩ := offset_is_stored_within_64_bits .fresh Registry.schema? 1 false Outages.faults_nil "s"
    Binding.greatest [.ok (.sentiment (.int 50))] []
  obtain ⟨-, hbroken⟩ := offset_is_stored_within_64_bits .fresh Registry.schema? 1 false haway "s" 1 [] []
  obtain ⟨hinvalid, -⟩ := offset_is_stored_within_64_bits .fresh Registry.schema? 1 false Outages.faults_nil "s" (-1)
    [] []
  refine ⟨?_, ?_, ?_⟩
  · have hstorable : ∃ b, Batch.write c [] ⟨.text "s", Binding.greatest⟩ [.ok (.sentiment (.int 50))]
        ⟨⟨.empty, [], []⟩, [], []⟩ = .ok () b := by
      apply Batch.write_of_isWritten
      decide +kernel
    obtain ⟨-, -, hboth⟩ := hplain (by decide) (by decide)
    exact (hboth rfl).2 hstorable
  · rcases (hbroken (by decide) (by decide)).1 with ⟨⟨a, ha⟩, -⟩ | hinterrupted
    · cases ha
    · exact hinterrupted
  · obtain ⟨f, -, -, hledger, -⟩ := hinvalid (.inr (by decide))
    exact hledger

/-- The next offset is neither stored nor told as a failure of the store: the driver's overflow comes out. -/
theorem overflow_is_not_a_persistence_failure :
    ¬∀ (name : String) (n : Int), name ≠ "" → 0 ≤ n →
      let r := Ledger.fresh.setOffset ⟨Registry.schema?, 1000, Link.store false⟩ [] (.text name) (.int n) []
      r.Stores name n ∨ r.Interrupted (.storeOffset (.text name) n) .empty := by
  intro h
  have hsizes : (Ledger.fresh.setOffset ⟨Registry.schema?, 1000, Link.store false⟩ [] (.text "s")
      (.int (Binding.greatest + 1)) []).Sizes "s" (Binding.greatest + 1) .empty :=
    setOffset_sizes Store.laid_empty rfl (by decide) (by decide)
  have hlarge : ¬Binding.greatest + 1 ≤ Binding.greatest := by omega
  rw [Reply.Sizes, if_neg hlarge] at hsizes
  rcases h "s" (Binding.greatest + 1) (by decide) (by decide) with ⟨⟨a, ha⟩, -⟩ | ⟨fault, hf, -⟩
  · rw [hsizes.1] at ha
    cases ha
  · rw [hsizes.1] at hf
    cases hf

end Ledger

end FeedLedger
