import FeedLedger.Proofs.Admission

namespace FeedLedger

namespace Value

/-- Whether a value is an integer beyond 64 bits. -/
def isOversized : Value → Bool
  | int n => !decide (Binding.Fits n)
  | _ => false

theorem isOversized_iff {v : Value} : v.isOversized = true ↔ ∃ n, v = .int n ∧ ¬Binding.Fits n := by
  cases v <;> simp [isOversized]

end Value

namespace Batch

instance (valid : List ValidRecord) : Decidable (Oversized valid) :=
  decidable_of_iff ((valid.any fun v => v.rows.any fun row => row.any Value.isOversized) = true) (by
    simp only [List.any_eq_true, Value.isOversized_iff]
    constructor
    · rintro ⟨v, hv, row, hrow, _, hx, n, rfl, hlarge⟩
      exact ⟨v, hv, row, hrow, n, hx, hlarge⟩
    · rintro ⟨v, hv, row, hrow, n, hx, hlarge⟩
      exact ⟨v, hv, row, hrow, _, hx, n, rfl, hlarge⟩)

end Batch

namespace Ledger

/-- A batch commits with all rows of its valid records, and its offset is found afterwards, exactly if no row holds an
integer beyond 64 bits. Otherwise the driver refuses it and nothing is stored. -/
theorem batch_commits_unless_oversized {l : Ledger} (hl : Reached l) (stream : String) (hs : stream ≠ "") (n : Int)
    (h0 : 0 ≤ n) (hn : n ≤ Binding.greatest) (chunkSize : Int) (hc : 1 ≤ chunkSize) (autocommitting : Bool)
    (records : List Record) :
    let r := l.ingest (.builtin chunkSize autocommitting) [] (.text stream) (records.map .ok) (.int n) []
    let valid := Batch.validRecords Registry.schema? records
    ((∃ count, r.result = .ok count) ↔ ¬Batch.Oversized valid) ∧
    (¬Batch.Oversized valid → r.result = .ok (valid.flatMap (·.rows)).length ∧
      (∃ chunks, Commits Registry.schema? ⟨.text stream, n⟩ records chunks l.store r.ledger.store) ∧
      Ledger.lookUp (.text stream) r.ledger.store = .ok (some n)) ∧
    (Batch.Oversized valid → r.result = .error .integerTooLarge ∧ r.ledger.store = l.store) := by
  intro r valid
  have ho : checkArguments (.text stream) (.int n) = .ok ⟨.text stream, n⟩ := by
    simp [checkArguments, Value.isEmpty, hs, h0]
  have hlarge : Batch.Oversized valid → r.result = .error .integerTooLarge ∧ r.ledger.store = l.store :=
    fun h => ingest_oversized hl.sound hc autocommitting [] ho h
  have hsmall : ¬Batch.Oversized valid → r.result = .ok (valid.flatMap (·.rows)).length ∧
      (∃ chunks, Commits Registry.schema? ⟨.text stream, n⟩ records chunks l.store r.ledger.store) ∧
      Ledger.lookUp (.text stream) r.ledger.store = .ok (some n) := by
    intro h
    have hfits : Binding.Fits n := ⟨by unfold Binding.least; omega, hn⟩
    obtain ⟨mid, hsound, -, hend⟩ := ingest_small hl.sound hc autocommitting [] ho h
    rw [Store.executeChunk_offset hsound.laid rfl, if_pos hfits] at hend
    obtain ⟨hok, hstore⟩ := hend
    refine ⟨hok, ?_, ?_⟩
    · rcases ingest_cases (Coordinator.default_ne_autocommit chunkSize autocommitting) [] (.text stream) (.int n)
        (records.map .ok) l [] with ⟨f, hf, -⟩ | ⟨o, rs, chunks, ho', hrs, -, hcommits⟩
      · rw [hok] at hf
        cases hf
      · rw [ho] at ho'
        cases ho'
        obtain rfl : records = rs := (List.map_inj_right fun _ _ e => Except.ok.inj e).1 hrs
        exact ⟨chunks, hcommits⟩
    · rw [hstore]
      exact Store.lookUp_withOffset rfl mid n
  refine ⟨⟨?_, fun h => ⟨_, (hsmall h).1⟩⟩, hsmall, hlarge⟩
  rintro ⟨count, hok⟩ h
  rw [(hlarge h).1] at hok
  cases hok

end Ledger

/-- A score, a record without one and one in a table that is not known: the score is stored and the rest dropped. -/
theorem Ledger.batch_commits_without_malformed :
    (Ledger.fresh.ingest (.builtin 1 false) [] (.text "s")
      ([Record.sentiment (.text "9223372036854775807"), Record.sentiment (.bytes [0x34]), ⟨"none", []⟩].map .ok)
      (.int Binding.greatest) []).result = .ok 1 := by
  have h := batch_commits_unless_oversized .fresh "s" (by decide) Binding.greatest (by decide) (by decide) 1 (by decide)
    false [Record.sentiment (.text "9223372036854775807"), Record.sentiment (.bytes [0x34]), ⟨"none", []⟩]
  rw [(h.2.1 (by decide +kernel)).1]
  exact congrArg Except.ok (by decide +kernel)

/-- A score of one more aborts the batch that it shares with a good record, and would do so each time. -/
theorem Ledger.oversized_score_aborts :
    ¬∀ (stream : String) (n : Int) (chunkSize : Int) (records : List Record),
      stream ≠ "" → 0 ≤ n → n ≤ Binding.greatest → 1 ≤ chunkSize →
        ∃ count, (Ledger.fresh.ingest (.builtin chunkSize false) [] (.text stream) (records.map .ok) (.int n)
          []).result = .ok count := by
  intro h
  obtain ⟨count, hok⟩ := h "s" 7 1000 [Record.sentiment (.int 50), Record.sentiment (.int 9223372036854775808)]
    (by decide) (by decide) (by decide) (by decide)
  have hlarge : Batch.Oversized (Batch.validRecords Registry.schema?
      [Record.sentiment (.int 50), Record.sentiment (.int 9223372036854775808)]) := by decide +kernel
  have herror : (Ledger.fresh.ingest (.builtin 1000 false) [] (.text "s")
      ([Record.sentiment (.int 50), Record.sentiment (.int 9223372036854775808)].map .ok) (.int 7) []).result =
      .error .integerTooLarge :=
    (Ledger.ingest_oversized Store.sound_empty (by decide) false [] rfl hlarge).1
  rw [herror] at hok
  cases hok

end FeedLedger
