import FeedLedger.Proofs.Atomicity
import FeedLedger.Proofs.Reached

namespace FeedLedger

namespace Write

/-- The records that a call brings, without the failures of their source. -/
def sources (w : Write) : List Record := w.records.filterMap (·.toOption)

theorem sources_eq {w : Write} {rs : List Record} (h : w.records = rs.map .ok) : w.sources = rs := by
  rw [sources, h, List.filterMap_map]
  exact List.filterMap_some

end Write

namespace Attempt

/-- The rows of values that a call brings for a table. -/
def rowsFor (a : Attempt) (table : String) : List (List Value) :=
  Batch.rowsOf table (Batch.validRecords Registry.schema? a.write.sources)

/-- A call whose batch and offset have been committed under the built-in schemas. -/
structure Committed (a : Attempt) (o : BatchOrigin) (chunks : List Chunk) (before after : Store) : Prop where
  checked : Ledger.checkArguments a.write.stream a.write.offset = .ok o
  sourced : a.write.records = a.write.sources.map .ok
  commits : Commits Registry.schema? o a.write.sources chunks before after

theorem Committed.origin {a : Attempt} {o : BatchOrigin} {chunks : List Chunk} {before after : Store}
    (h : a.Committed o chunks before after) :
    o.stream = a.write.stream ∧ a.write.offset = .int o.offset ∧ 0 ≤ o.offset :=
  (Ledger.checkArguments_ok h.checked).2

/-- A call under the built-in schemas leaves no trace, or it returns and is committed. -/
theorem committed_cases {a : Attempt} (hb : a.schemas = Registry.schema?) (l : Ledger) :
    (∃ f, (a.carryOut l).1 = .error f ∧ (a.carryOut l).2.store = l.store) ∨
      ∃ o chunks, (a.carryOut l).1 =
          .ok (a.write.answer ((Batch.validRecords Registry.schema? a.write.sources).flatMap (·.rows)).length) ∧
        a.Committed o chunks l.store (a.carryOut l).2.store := by
  rcases a.carryOut_cases l with hfail | ⟨o, rs, chunks, ho, hrs, hok, hc⟩
  · exact .inl hfail
  · have hsources := Write.sources_eq hrs
    rw [hb, ← hsources] at hok hc
    rw [← hsources] at hrs
    exact .inr ⟨o, chunks, hok, ho, hrs, hc⟩

theorem mem_of_mem_returning {a : Attempt} {calls : List Attempt} {l : Ledger} (h : a ∈ returning l calls) :
    a ∈ calls := by
  induction calls generalizing l with
  | nil => exact h
  | cons b rest ih =>
    simp only [returning] at h
    split at h
    · rcases List.mem_cons.1 h with rfl | h
      · exact List.mem_cons_self
      · exact List.mem_cons_of_mem _ (ih h)
    · exact List.mem_cons_of_mem _ (ih h)

theorem run_append (l : Ledger) (first rest : List Attempt) :
    (run l (first ++ rest)).2 = (run (run l first).2 rest).2 := by
  induction first generalizing l with
  | nil => rfl
  | cons a more ih => exact ih (a.carryOut l).2

/-- What holds of a store and the calls committed so far is kept by a run, if every commit keeps it. -/
theorem run_keeps {P : Store → List Attempt → Prop} {calls : List Attempt}
    (hb : ∀ a ∈ calls, a.schemas = Registry.schema?)
    (hstep : ∀ (a : Attempt) o chunks before after done, a.Committed o chunks before after →
      P before done → P after (done ++ [a]))
    {l : Ledger} {done : List Attempt} (h : P l.store done) :
    P (run l calls).2.store (done ++ returning l calls) := by
  induction calls generalizing l done with
  | nil =>
    rw [returning, List.append_nil]
    exact h
  | cons a rest ih =>
    obtain ⟨hfirst, hlater⟩ := List.forall_mem_cons.1 hb
    have hrun : (run l (a :: rest)).2 = (run (a.carryOut l).2 rest).2 := rfl
    rw [hrun]
    rcases committed_cases hfirst l with ⟨f, hf, hs⟩ | ⟨o, chunks, hok, hc⟩
    · -- the failing call is not counted, and what follows starts at the same store
      rw [returning_of_error hf]
      rw [← hs] at h
      exact ih hlater h
    · rw [returning_of_ok hok, List.append_cons]
      exact ih hlater (hstep a o chunks _ _ _ hc h)

end Attempt

end FeedLedger
