import FeedLedger.Proofs.Chunk
import FeedLedger.Proofs.Sending
import Mathlib.Data.List.Range

namespace FeedLedger

namespace Writer

theorem get?_ingestKey_params {schema : Schema} (hs : schema.syntheticKey = true) (batch : String) (n : Nat)
    (row : List Value) : Keyed.get? Schema.ingestKeyColumn (params schema batch n row) =
      some (.text (IngestKey.key batch schema.table (.int n))) := by
  simp [params, hs]

theorem ingestKeys_paramsFrom {schema : Schema} (hs : schema.syntheticKey = true) (batch : String) (n : Nat)
    (rows : List (List Value)) : (paramsFrom schema batch n rows).map (Keyed.get? Schema.ingestKeyColumn) =
      (List.range' n rows.length).map fun i => some (.text (IngestKey.key batch schema.table (.int i))) := by
  induction rows generalizing n with
  | nil => rfl
  | cons row rest ih =>
    rw [paramsFrom, List.map_cons, get?_ingestKey_params hs, ih, List.length_cons, List.range'_succ, List.map_cons]

/-- The rows that count, those of lost chunks left out, have consecutive ordinals: first the executed ones, then the
pending ones. -/
structure Numbers (schema : Schema) (batch : String) (w : Writer) (sendings : List Sending)
    (accepted : List (List Value)) : Prop where
  laidOut : w.schema = schema
  named : w.batch = batch
  counted : w.rowsWritten = (Sending.written sendings).length
  numbered : ∃ rows, rows.Sublist accepted ∧ ((∀ k ∈ sendings, k.executed = true) → rows = accepted) ∧
    Sending.written sendings ++ w.pending = paramsFrom schema batch 0 rows

variable {schema : Schema} {batch : String}

theorem Numbers.push {w : Writer} {sendings : List Sending} {accepted : List (List Value)}
    (h : Numbers schema batch w sendings accepted) (row : List Value) :
    Numbers schema batch (w.push row) sendings (accepted ++ [row]) where
  laidOut := h.laidOut
  named := h.named
  counted := h.counted
  numbered := by
    obtain ⟨rows, hsub, hall, hrows⟩ := h.numbered
    have hordinal : w.ordinal = rows.length := by
      have hlength := congrArg List.length hrows
      rw [List.length_append, length_paramsFrom, ← h.counted] at hlength
      exact hlength
    refine ⟨rows ++ [row], hsub.append (List.Sublist.refl _), fun he => by rw [hall he], ?_⟩
    rw [pending_push, ← List.append_assoc, hrows, h.laidOut, h.named, hordinal, paramsFrom_append, Nat.zero_add]
    rfl

theorem Numbers.settle {w : Writer} {sendings : List Sending} {accepted : List (List Value)}
    (h : Numbers schema batch w sendings accepted) :
    Numbers schema batch w.settle (sendings ++ [⟨w.pending, true⟩]) accepted where
  laidOut := h.laidOut
  named := h.named
  counted := by
    rw [Sending.written_concat_executed, List.length_append, ← h.counted]
    rfl
  numbered := by
    obtain ⟨rows, hsub, hall, hrows⟩ := h.numbered
    refine ⟨rows, hsub, fun he => hall fun k hk => he k (List.mem_append_left _ hk), ?_⟩
    rw [Sending.written_concat_executed, hrows]
    exact List.append_nil _

/-- The rows of a lost chunk count no longer, and the next row has the ordinal of the first of them. -/
theorem Numbers.drop {w : Writer} {sendings : List Sending} {accepted : List (List Value)}
    (h : Numbers schema batch w sendings accepted) :
    Numbers schema batch w.drop (sendings ++ [⟨w.pending, false⟩]) accepted where
  laidOut := h.laidOut
  named := h.named
  counted := by
    rw [Sending.written_concat_failed]
    exact h.counted
  numbered := by
    obtain ⟨rows, hsub, -, hrows⟩ := h.numbered
    -- The executed rows are the first of those that count.
    have hwritten : Sending.written sendings = paramsFrom schema batch 0 (rows.take w.rowsWritten) := by
      have hlength := congrArg List.length hrows
      rw [List.length_append, length_paramsFrom, ← h.counted] at hlength
      rw [← List.take_append_drop w.rowsWritten rows, paramsFrom_append] at hrows
      refine (List.append_inj hrows ?_).1
      rw [length_paramsFrom, List.length_take, ← h.counted]
      omega
    refine ⟨rows.take w.rowsWritten, (List.take_sublist _ _).trans hsub, fun he => ?_, ?_⟩
    · have hfailed := he ⟨w.pending, false⟩ (List.mem_append_right _ (List.mem_singleton_self _))
      cases hfailed
    · rw [Sending.written_concat_failed, ← hwritten]
      exact List.append_nil _

theorem keeps_numbers (schema : Schema) (batch : String) : Keeps (Numbers schema batch) where
  push row h := h.push row
  settle _ h := h.settle
  drop _ h := h.drop

theorem numbers_make {dialect : String} {size : Int} {w : Writer} (h : make schema dialect size batch = .ok w) :
    Numbers schema batch w [] [] := by
  obtain ⟨-, statement, rfl⟩ := make_eq_ok h
  exact ⟨rfl, rfl, rfl, [], List.Sublist.refl _, fun _ => rfl, rfl⟩

end Writer

section

variable {σ ε : Type} {schema : Schema} {dialect batch : String} {size : Int} {w : Writer}

end

end FeedLedger
