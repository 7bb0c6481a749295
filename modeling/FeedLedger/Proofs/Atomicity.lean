import FeedLedger.Proofs.Attempt

namespace FeedLedger

/-- What a call is to write: a batch with its offset, by itself or through the pool, or an offset alone. -/
inductive Write
  | ingest (stream : Value) (records : List (Except Failure Record)) (offset : Value)
  | submit (workers : Int) (batch : Submission)
  | setOffset (stream offset : Value)

namespace Write

def stream : Write → Value
  | ingest stream _ _ | setOffset stream _ => stream
  | submit _ batch => batch.stream

def offset : Write → Value
  | ingest _ _ offset | setOffset _ offset => offset
  | submit _ batch => batch.offset

def records : Write → List (Except Failure Record)
  | ingest _ records _ => records
  | submit _ batch => batch.records
  | setOffset .. => []

/-- The answer when so many rows are handed to the store. -/
def answer (rows : Nat) : Write → Answer
  | setOffset .. => .done
  | _ => .rows rows

end Write

/-- A call on the session's store, whose connections may commit by themselves. -/
structure Attempt where
  schemas : String → Option Schema
  chunkSize : Int
  autocommitting : Bool
  outages : Outages
  /-- The inserts executed so far; outages at inserts are counted from the first of them. -/
  inserts : List String
  write : Write

namespace Attempt

def coordinator (a : Attempt) : Coordinator := ⟨a.schemas, a.chunkSize, Link.store a.autocommitting⟩

def carryOut (a : Attempt) (l : Ledger) : Except Failure Answer × Ledger :=
  match a.write with
  | .ingest stream records offset =>
    let r := l.ingest a.coordinator a.outages stream records offset a.inserts
    (r.result.map .rows, r.ledger)
  | .submit workers batch =>
    let r := l.submit a.coordinator a.outages workers [batch]
    (Ledger.onlyAnswer r.result, r.ledger)
  | .setOffset stream offset =>
    let r := l.setOffset a.coordinator a.outages stream offset a.inserts
    (r.result.map fun _ => .done, r.ledger)

def run (l : Ledger) : List Attempt → List (Except Failure Answer) × Ledger
  | [] => ([], l)
  | a :: rest =>
    let r := a.carryOut l
    let (results, l) := run r.2 rest
    (r.1 :: results, l)

/-- The calls of a run that return. -/
def returning (l : Ledger) : List Attempt → List Attempt
  | [] => []
  | a :: rest =>
    let r := a.carryOut l
    if r.1.isOk then a :: returning r.2 rest else returning r.2 rest

theorem results_cons (l : Ledger) (a : Attempt) (rest : List Attempt) :
    (run l (a :: rest)).1 = (a.carryOut l).1 :: (run (a.carryOut l).2 rest).1 := rfl

theorem default_ne_autocommit (a : Attempt) : a.coordinator.link.default ≠ Link.autocommit :=
  Link.default_store_ne_autocommit a.autocommitting

/-- A call does everything or nothing. -/
theorem carryOut_cases (a : Attempt) (l : Ledger) :
    (∃ f, (a.carryOut l).1 = .error f ∧ (a.carryOut l).2.store = l.store) ∨
    ∃ o rs chunks, Ledger.checkArguments a.write.stream a.write.offset = .ok o ∧ a.write.records = rs.map .ok ∧
      (a.carryOut l).1 = .ok (a.write.answer ((Batch.validRecords a.schemas rs).flatMap (·.rows)).length) ∧
      Commits a.schemas o rs chunks l.store (a.carryOut l).2.store := by
  simp only [carryOut]
  cases hw : a.write with
  | ingest stream records offset =>
    rcases Ledger.ingest_cases a.default_ne_autocommit a.outages stream offset records l a.inserts with
      ⟨f, hf, hs⟩ | ⟨o, rs, chunks, ho, hrs, hr, hc⟩
    · simp only [hf]
      exact .inl ⟨f, rfl, hs⟩
    · simp only [hr]
      exact .inr ⟨o, rs, chunks, ho, hrs, rfl, hc⟩
  | submit workers batch =>
    rcases Ledger.submit_single a.coordinator a.outages workers batch with ⟨f, hf⟩ | hturn
    · obtain ⟨hr, hl⟩ := hf l
      refine .inl ⟨f, ?_, ?_⟩
      · simp only [hr, Ledger.onlyAnswer]
      · simp only [hl]
    obtain ⟨hr, hl⟩ := hturn l
    simp only [hr, hl]
    rcases Ledger.takeTurn_cases a.default_ne_autocommit a.outages batch l [] with ⟨f, hf, hs⟩ | ⟨o, rs, chunks, ho, hrs, hok, hc⟩
    · rw [hf]
      exact .inl ⟨f, rfl, hs⟩
    · rw [hok]
      exact .inr ⟨o, rs, chunks, ho, hrs, rfl, hc⟩
  | setOffset stream offset =>
    rcases Ledger.setOffset_cases a.coordinator a.outages stream offset l a.inserts with ⟨f, hf, hs⟩ | ⟨o, ho, hr, hc⟩
    · simp only [hf]
      exact .inl ⟨f, rfl, hs⟩
    · simp only [hr]
      exact .inr ⟨o, [], [], ho, rfl, rfl, hc⟩

theorem carryOut_congr (a : Attempt) {l m : Ledger} (h : l.store = m.store) :
    (a.carryOut l).1 = (a.carryOut m).1 ∧ (a.carryOut l).2.store = (a.carryOut m).2.store := by
  simp only [carryOut]
  cases hw : a.write with
  | ingest stream records offset =>
    obtain ⟨hr, hs⟩ := Ledger.ingest_congr h a.coordinator a.outages stream offset records a.inserts
    refine ⟨?_, hs⟩
    simp only [hr]
  | submit workers batch =>
    rcases Ledger.submit_single a.coordinator a.outages workers batch with ⟨f, hf⟩ | hturn
    · obtain ⟨hr, hl⟩ := hf l
      obtain ⟨hr', hl'⟩ := hf m
      refine ⟨?_, ?_⟩
      · simp only [hr, hr']
      · simp only [hl, hl', h]
    · obtain ⟨hr, hl⟩ := hturn l
      obtain ⟨hr', hl'⟩ := hturn m
      obtain ⟨ht, hs⟩ := Ledger.takeTurn_congr h a.coordinator a.outages batch []
      refine ⟨?_, ?_⟩
      · simp only [hr, hr', ht]
      · simp only [hl, hl', hs]
  | setOffset stream offset =>
    obtain ⟨hr, hs⟩ := Ledger.setOffset_congr h a.coordinator a.outages stream offset a.inserts
    refine ⟨?_, hs⟩
    simp only [hr]

theorem run_congr (calls : List Attempt) {l m : Ledger} (h : l.store = m.store) :
    (run l calls).1 = (run m calls).1 ∧ (run l calls).2.store = (run m calls).2.store := by
  induction calls generalizing l m with
  | nil => exact ⟨rfl, h⟩
  | cons a rest ih =>
    obtain ⟨hr, hs⟩ := a.carryOut_congr h
    obtain ⟨hrest, hstore⟩ := ih hs
    simp only [run]
    exact ⟨by rw [hr, hrest], hstore⟩

theorem laid_run (calls : List Attempt) {l : Ledger} (h : l.store.Laid) : (run l calls).2.store.Laid := by
  induction calls generalizing l with
  | nil => exact h
  | cons a rest ih =>
    refine ih ?_
    rcases a.carryOut_cases l with ⟨f, -, hs⟩ | ⟨o, rs, chunks, -, -, -, hc⟩
    · rw [hs]
      exact h
    · exact hc.laid_after h

theorem returning_of_error {a : Attempt} {l : Ledger} {f : Failure} (h : (a.carryOut l).1 = .error f)
    (rest : List Attempt) : returning l (a :: rest) = returning (a.carryOut l).2 rest := by
  have hfail : (a.carryOut l).1.isOk = false := by rw [h]; rfl
  simp [returning, hfail]

theorem returning_of_ok {a : Attempt} {l : Ledger} {answer : Answer} (h : (a.carryOut l).1 = .ok answer)
    (rest : List Attempt) : returning l (a :: rest) = a :: returning (a.carryOut l).2 rest := by
  have hreturn : (a.carryOut l).1.isOk = true := by rw [h]; rfl
  simp [returning, hreturn]

/-- A run without its failing calls ends at the same store and answers the calls that return as before. -/
theorem run_returning (l : Ledger) (calls : List Attempt) :
    (run l (returning l calls)).2.store = (run l calls).2.store ∧
      (run l (returning l calls)).1 = (run l calls).1.filter (·.isOk) := by
  induction calls generalizing l with
  | nil => exact ⟨rfl, rfl⟩
  | cons a rest ih =>
    obtain ⟨hstore, hresults⟩ := ih (a.carryOut l).2
    rcases a.carryOut_cases l with ⟨f, hf, hs⟩ | ⟨o, rs, chunks, -, -, hok, -⟩
    · -- the failing call is left out, so what follows starts at a ledger with the same store
      have hfail : (a.carryOut l).1.isOk = false := by rw [hf]; rfl
      obtain ⟨hr, ht⟩ := run_congr (returning (a.carryOut l).2 rest) hs
      rw [returning_of_error hf, results_cons, List.filter_cons_of_neg (by simp [hfail])]
      exact ⟨ht.symm.trans hstore, hr.symm.trans hresults⟩
    · have hreturn : (a.carryOut l).1.isOk = true := by rw [hok]; rfl
      rw [returning_of_ok hok, results_cons, results_cons, List.filter_cons_of_pos hreturn, hresults]
      exact ⟨hstore, rfl⟩

/-- A call that fails leaves the store as it was, so that the failing calls of a run can be left out of it; a call
that returns has executed all rows of its valid records and then stored its offset. -/
theorem calls_are_atomic :
    (∀ (l : Ledger) (a : Attempt) (f : Failure), (a.carryOut l).1 = .error f → (a.carryOut l).2.store = l.store) ∧
    (∀ (l : Ledger) (calls : List Attempt),
      (run l (returning l calls)).2.store = (run l calls).2.store ∧
        (run l (returning l calls)).1 = (run l calls).1.filter (·.isOk)) ∧
    ∀ (earlier : List Attempt) (a : Attempt) (answer : Answer), let l := (run Ledger.fresh earlier).2
      (a.carryOut l).1 = .ok answer →
        ∃ o rs chunks, Ledger.checkArguments a.write.stream a.write.offset = .ok o ∧ a.write.records = rs.map .ok ∧
          answer = a.write.answer ((Batch.validRecords a.schemas rs).flatMap (·.rows)).length ∧
          Commits a.schemas o rs chunks l.store (a.carryOut l).2.store ∧
          Ledger.lookUp o.stream (a.carryOut l).2.store = .ok (some o.offset) := by
  refine ⟨?_, fun l calls => run_returning l calls, ?_⟩
  · intro l a f hf
    rcases a.carryOut_cases l with ⟨g, -, hs⟩ | ⟨o, rs, chunks, -, -, hok, -⟩
    · exact hs
    · rw [hok] at hf
      cases hf
  · intro earlier a answer l hans
    rcases a.carryOut_cases l with ⟨f, hf, -⟩ | ⟨o, rs, chunks, ho, hrs, hok, hc⟩
    · rw [hf] at hans
      cases hans
    rw [hok] at hans
    cases hans
    obtain ⟨mid, -, hmid, hoff⟩ := hc.laid (laid_run earlier Store.laid_empty)
    obtain ⟨name, hname, -, hafter⟩ := Store.withOffset_of_executeChunk hmid hoff
    refine ⟨o, rs, chunks, ho, hrs, rfl, hc, ?_⟩
    rw [hafter]
    exact Store.lookUp_withOffset hname mid o.offset

/-- A batch whose offset turns out too large when its chunks are executed already, between one that is stored and an
offset that is set. -/
theorem refused_batch_leaves_no_trace :
    let stored : Attempt :=
      ⟨Registry.schema?, 1, false, [], [], .ingest (.text "s") [.ok (.sentiment (.int 50))] (.int 1)⟩
    let refused : Attempt :=
      ⟨Registry.schema?, 1, true, [], [],
        .submit 2 ⟨.text "s", [.ok (.liquidation (.int 7)), .ok (.liquidation (.int 8))], .int 9223372036854775808⟩⟩
    let moved : Attempt := ⟨Registry.schema?, 1, false, [], [], .setOffset (.text "s") (.int 5)⟩
    let calls := [stored, refused, moved]
    let l := (run Ledger.fresh [stored]).2
    (∃ f, (refused.carryOut l).1 = .error f) ∧ (refused.carryOut l).2.store = l.store ∧
      (returning Ledger.fresh calls).length = 2 ∧
      (run Ledger.fresh (returning Ledger.fresh calls)).2.store = (run Ledger.fresh calls).2.store ∧
      Ledger.lookUp (.text "s") (stored.carryOut Ledger.fresh).2.store = .ok (some 1) := by
  intro stored refused moved calls l
  obtain ⟨hfail, hruns, hreturn⟩ := calls_are_atomic
  have hrefused : ∃ f, (refused.carryOut l).1 = .error f := by
    have hnone : (refused.carryOut l).1.isOk = false := by decide +kernel
    cases h : (refused.carryOut l).1 with
    | error f => exact ⟨f, rfl⟩
    | ok answer =>
      rw [h] at hnone
      cases hnone
  obtain ⟨f, hf⟩ := hrefused
  have hstored : (stored.carryOut Ledger.fresh).1.toOption.isSome = true := by decide +kernel
  obtain ⟨answer, hanswer⟩ := Option.isSome_iff_exists.1 hstored
  obtain ⟨o, rs, chunks, ho, -, -, -, hlookUp⟩ := hreturn [] stored answer (eq_ok_of_toOption hanswer)
  cases ho
  exact ⟨⟨f, hf⟩, hfail l refused f hf, by decide +kernel, (hruns Ledger.fresh calls).1, hlookUp⟩

end Attempt

end FeedLedger
