import FeedLedger.Writer.Recorder
import Mathlib.Tactic.Common

/-!
What a writer hands to its connection, call after call. The connection is any one, and it may fail at any chunk. Beside
it the chunks are noted in the order in which they are handed over, with those that it fails on, and the rows that the
writer has taken in are kept.
-/

namespace FeedLedger

/-- A chunk that was handed to a connection, and whether the connection executed it. -/
structure Sending where
  chunk : List Params
  executed : Bool

namespace Sending

def handed (sendings : List Sending) : List Params := sendings.flatMap (·.chunk)

/-- The rows of the chunks that were executed. -/
def written (sendings : List Sending) : List Params := handed (sendings.filter (·.executed))

@[simp] theorem handed_concat (sendings : List Sending) (k : Sending) :
    handed (sendings ++ [k]) = handed sendings ++ k.chunk := by
  simp [handed]

@[simp] theorem written_concat_executed (sendings : List Sending) (chunk : List Params) :
    written (sendings ++ [⟨chunk, true⟩]) = written sendings ++ chunk := by
  simp [written]

@[simp] theorem written_concat_failed (sendings : List Sending) (chunk : List Params) :
    written (sendings ++ [⟨chunk, false⟩]) = written sendings := by
  simp [written]

theorem length_handed {sendings : List Sending} {size : Nat} (h : ∀ k ∈ sendings, k.chunk.length = size) :
    (handed sendings).length = size * sendings.length := by
  induction sendings with
  | nil => rfl
  | cons k rest ih =>
    obtain ⟨hk, hrest⟩ := List.forall_mem_cons.1 h
    have hcons : handed (k :: rest) = k.chunk ++ handed rest := List.flatMap_cons
    rw [hcons, List.length_append, hk, ih hrest, List.length_cons, Nat.mul_add, Nat.mul_one, Nat.add_comm]

end Sending

/-- The state that is left behind, by a failure as well. -/
def endState {ε τ α : Type} : EStateM.Result ε τ α → τ
  | .ok _ t => t
  | .error _ t => t

@[simp] theorem endState_ok {ε τ α : Type} (a : α) (t : τ) : endState (.ok a t : EStateM.Result ε τ α) = t := rfl

@[simp] theorem endState_error {ε τ α : Type} (e : ε) (t : τ) : endState (.error e t : EStateM.Result ε τ α) = t := rfl

namespace Writer

section

variable {σ ε : Type} (send : Writer → List Params → EStateM ε σ Unit)

/-- The connection with the chunks that are handed to it noted beside it. -/
def noting : Writer → List Params → EStateM ε (σ × List Sending) Unit := fun w chunk (s, sendings) =>
  match send w chunk s with
  | .ok () s => .ok () (s, sendings ++ [⟨chunk, true⟩])
  | .error e s => .error e (s, sendings ++ [⟨chunk, false⟩])

/-- The rows that are taken in of those given one after the other: all of them, or those up to the one that fills a
chunk which fails. -/
def taken : List (List Value) → Writer × σ → List (List Value)
  | [], _ => []
  | row :: rows, t =>
    row :: match add send row t with
      | .ok _ t => taken rows t
      | .error _ _ => []

end

variable {σ ε : Type} {send : Writer → List Params → EStateM ε σ Unit}

theorem taken_single (row : List Value) (x : Writer × σ) : taken send [row] x = [row] := by
  rw [taken]
  cases add send row x <;> rfl

theorem endState_extend_single (row : List Value) (x : Writer × σ) :
    endState (extend send [row] x) = endState (add send row x) := by
  simp only [extend]
  cases add send row x <;> rfl

/-- What a writer starts with. -/
theorem make_eq_ok {schema : Schema} {dialect batch : String} {size : Int} {w : Writer}
    (h : make schema dialect size batch = .ok w) :
    0 < size ∧ ∃ statement, w = ⟨schema, statement, size.toNat, batch, 0, 0, []⟩ := by
  simp only [make] at h
  split at h
  · cases h
  rename_i hsize
  cases hi : schema.insert dialect with
  | error f =>
    rw [hi] at h
    cases h
  | ok statement =>
    rw [hi] at h
    cases h
    exact ⟨by omega, statement, rfl⟩

/-- What can become of a flush: there is nothing to send, or the pending rows are handed over and executed, or handed
over and lost. -/
theorem flush_noting (send : Writer → List Params → EStateM ε σ Unit) (w : Writer) (s : σ) (sendings : List Sending) :
    w.pending = [] ∧ flush (noting send) (w, (s, sendings)) = .ok 0 (w, (s, sendings)) ∨
    w.pending ≠ [] ∧
      ((∃ s', flush (noting send) (w, (s, sendings)) =
          .ok w.pending.length (w.settle, (s', sendings ++ [⟨w.pending, true⟩]))) ∨
        ∃ e s', flush (noting send) (w, (s, sendings)) =
          .error e (w.drop, (s', sendings ++ [⟨w.pending, false⟩]))) := by
  by_cases hp : w.pending = []
  · exact .inl ⟨hp, by simp only [flush, if_pos hp]⟩
  refine .inr ⟨hp, ?_⟩
  simp only [flush, if_neg hp, noting]
  cases send w w.pending s with
  | ok _ s' => exact .inl ⟨s', rfl⟩
  | error e s' => exact .inr ⟨e, s', rfl⟩

theorem length_pending_push (w : Writer) (row : List Value) :
    (w.push row).pending.length = w.pending.length + 1 := by
  rw [pending_push, List.length_append, List.length_singleton]

/-- What can become of a row: there is room for it, or the chunk it fills is executed, or it is lost with the chunk. -/
theorem add_noting (send : Writer → List Params → EStateM ε σ Unit) (row : List Value) (w : Writer) (s : σ)
    (sendings : List Sending) :
    w.pending.length + 1 < w.chunkSize ∧
      add (noting send) row (w, (s, sendings)) = .ok () (w.push row, (s, sendings)) ∨
    w.chunkSize ≤ w.pending.length + 1 ∧
      ((∃ s', add (noting send) row (w, (s, sendings)) =
          .ok () ((w.push row).settle, (s', sendings ++ [⟨(w.push row).pending, true⟩]))) ∨
        ∃ e s', add (noting send) row (w, (s, sendings)) =
          .error e ((w.push row).drop, (s', sendings ++ [⟨(w.push row).pending, false⟩]))) := by
  have hsize : (w.push row).chunkSize = w.chunkSize := rfl
  simp only [add, length_pending_push, hsize]
  by_cases hfull : w.chunkSize ≤ w.pending.length + 1
  · rw [if_pos hfull]
    refine .inr ⟨hfull, ?_⟩
    rcases flush_noting send (w.push row) s sendings with ⟨hp, -⟩ | ⟨-, ⟨s', h⟩ | ⟨e, s', h⟩⟩
    · simp [pending_push] at hp
    · exact .inl ⟨s', by rw [h]⟩
    · exact .inr ⟨e, s', by rw [h]⟩
  · rw [if_neg hfull]
    exact .inl ⟨by omega, rfl⟩

/-- What is left of a state when the notes are forgotten. -/
def unnoted (x : Writer × (σ × List Sending)) : Writer × σ := (x.1, x.2.1)

/-- A result with the notes forgotten. -/
def forget {α : Type} : EStateM.Result ε (Writer × (σ × List Sending)) α → EStateM.Result ε (Writer × σ) α
  | .ok a x => .ok a (unnoted x)
  | .error e x => .error e (unnoted x)

theorem forget_flush (x : Writer × (σ × List Sending)) :
    forget (flush (noting send) x) = flush send (unnoted x) := by
  obtain ⟨w, s, sendings⟩ := x
  rw [unnoted]
  simp only [flush, noting]
  by_cases hp : w.pending = []
  · rw [if_pos hp, if_pos hp]
    rfl
  · rw [if_neg hp, if_neg hp]
    cases send w w.pending s <;> rfl

theorem forget_add (row : List Value) (x : Writer × (σ × List Sending)) :
    forget (add (noting send) row x) = add send row (unnoted x) := by
  obtain ⟨w, s, sendings⟩ := x
  have hflush : forget (flush (noting send) (w.push row, (s, sendings))) = flush send (w.push row, s) := forget_flush _
  rw [unnoted]
  simp only [add, ← hflush]
  by_cases hfull : (w.push row).chunkSize ≤ (w.push row).pending.length
  · rw [if_pos hfull, if_pos hfull]
    cases flush (noting send) (w.push row, (s, sendings)) <;> rfl
  · rw [if_neg hfull, if_neg hfull]
    rfl

theorem forget_extend (rows : List (List Value)) (x : Writer × (σ × List Sending)) :
    forget (extend (noting send) rows x) = extend send rows (unnoted x) := by
  induction rows generalizing x with
  | nil => rfl
  | cons row rest ih =>
    simp only [extend, ← forget_add]
    cases add (noting send) row x with
    | ok u y => exact ih y
    | error e y => rfl

theorem taken_noting (rows : List (List Value)) (x : Writer × (σ × List Sending)) :
    taken (noting send) rows x = taken send rows (unnoted x) := by
  induction rows generalizing x with
  | nil => rfl
  | cons row rest ih =>
    simp only [taken, ← forget_add]
    cases add (noting send) row x with
    | ok u y => exact congrArg _ (ih y)
    | error e y => rfl

theorem unnoted_endState {α : Type} (r : EStateM.Result ε (Writer × (σ × List Sending)) α) :
    unnoted (endState r) = endState (forget r) := by
  cases r <;> rfl

end Writer

namespace WriterCall

/-- The rows that a call gives to the writer. -/
def rows : WriterCall → List (List Value)
  | add row => [row]
  | extend rows => rows
  | flush => []

/-- The rows of a call that the writer takes in. -/
def accepted {σ ε : Type} (send : Writer → List Params → EStateM ε σ Unit) (c : WriterCall) (t : Writer × σ) :
    List (List Value) := Writer.taken send c.rows t

end WriterCall

/-- How a writer and its connection stand after some calls, with what was handed over and taken in on the way. -/
structure Trail (σ : Type) where
  writer : Writer
  connection : σ
  sendings : List Sending
  accepted : List (List Value)

namespace Trail

variable {σ ε : Type} (send : Writer → List Params → EStateM ε σ Unit)

def start (w : Writer) (s : σ) : Trail σ := ⟨w, s, [], []⟩

def after (t : Trail σ) (c : WriterCall) : Trail σ :=
  let before := (t.writer, (t.connection, t.sendings))
  let (w, (s, sendings)) := endState (c.run (Writer.noting send) before)
  ⟨w, s, sendings, t.accepted ++ c.accepted (Writer.noting send) before⟩

/-- Carries out calls in order; a failure does not stop the next one. -/
def afterAll (t : Trail σ) (calls : List WriterCall) : Trail σ := calls.foldl (after send) t

end Trail

/-! ### What every call keeps -/

/-- What is kept when a row is taken in, when the pending rows are handed over and executed, and when they are handed
over and lost. -/
structure Keeps (P : Writer → List Sending → List (List Value) → Prop) : Prop where
  push : ∀ {w sendings accepted} (row : List Value), P w sendings accepted → P (w.push row) sendings (accepted ++ [row])
  settle : ∀ {w sendings accepted}, w.pending ≠ [] → P w sendings accepted →
    P w.settle (sendings ++ [⟨w.pending, true⟩]) accepted
  drop : ∀ {w sendings accepted}, w.pending ≠ [] → P w sendings accepted →
    P w.drop (sendings ++ [⟨w.pending, false⟩]) accepted

namespace Keeps

open Writer

variable {σ ε : Type} {send : Writer → List Params → EStateM ε σ Unit}
variable {P : Writer → List Sending → List (List Value) → Prop}

theorem flush (hk : Keeps P) {w : Writer} {s : σ} {sendings : List Sending} {accepted : List (List Value)}
    (h : P w sendings accepted) :
    let t := endState (flush (noting send) (w, (s, sendings)))
    P t.1 t.2.2 accepted := by
  rcases flush_noting send w s sendings with ⟨-, he⟩ | ⟨hp, ⟨s', he⟩ | ⟨e, s', he⟩⟩ <;> rw [he]
  · exact h
  · exact hk.settle hp h
  · exact hk.drop hp h

theorem extend (hk : Keeps P) (rows : List (List Value)) {w : Writer} {s : σ} {sendings : List Sending}
    {accepted : List (List Value)} (h : P w sendings accepted) :
    let t := endState (extend (noting send) rows (w, (s, sendings)))
    P t.1 t.2.2 (accepted ++ taken (noting send) rows (w, (s, sendings))) := by
  induction rows generalizing w s sendings accepted with
  | nil => simpa [Writer.extend, taken] using h
  | cons row rest ih =>
    have hpush := hk.push row h
    have hne : (w.push row).pending ≠ [] := by simp [pending_push]
    have hrow (more : List (List Value)) : accepted ++ row :: more = (accepted ++ [row]) ++ more := by simp
    simp only [Writer.extend, taken]
    rcases add_noting send row w s sendings with ⟨-, he⟩ | ⟨-, ⟨s', he⟩ | ⟨e, s', he⟩⟩ <;>
      simp only [he] <;> rw [hrow]
    · exact ih hpush
    · exact ih (hk.settle hne hpush)
    · rw [List.append_nil]
      exact hk.drop hne hpush

end Keeps

namespace WriterCall

open Writer

variable {σ ε : Type} (send : Writer → List Params → EStateM ε σ Unit) (x : Writer × σ)

theorem endState_run_add (row : List Value) : endState ((add row).run send x) = endState (Writer.add send row x) := by
  simp only [run, bind, EStateM.bind]
  cases Writer.add send row x <;> rfl

theorem endState_run_extend (rows : List (List Value)) :
    endState ((extend rows).run send x) = endState (Writer.extend send rows x) := by
  simp only [run, bind, EStateM.bind]
  cases Writer.extend send rows x <;> rfl

theorem endState_run_flush : endState (flush.run send x) = endState (Writer.flush send x) := by
  simp only [run, bind, EStateM.bind]
  cases Writer.flush send x <;> rfl

end WriterCall

namespace Trail

variable {σ ε : Type} {send : Writer → List Params → EStateM ε σ Unit}
variable {P : Writer → List Sending → List (List Value) → Prop}

theorem after_add (t : Trail σ) (row : List Value) : t.after send (.add row) =
    let x := endState (Writer.add (Writer.noting send) row (t.writer, (t.connection, t.sendings)))
    ⟨x.1, x.2.1, x.2.2, t.accepted ++ [row]⟩ := by
  simp only [after, WriterCall.endState_run_add, WriterCall.accepted, WriterCall.rows, Writer.taken_single]

theorem after_extend (t : Trail σ) (rows : List (List Value)) : t.after send (.extend rows) =
    let before := (t.writer, (t.connection, t.sendings))
    let x := endState (Writer.extend (Writer.noting send) rows before)
    ⟨x.1, x.2.1, x.2.2, t.accepted ++ Writer.taken (Writer.noting send) rows before⟩ := by
  simp only [after, WriterCall.endState_run_extend, WriterCall.accepted, WriterCall.rows]

theorem after_flush (t : Trail σ) : t.after send .flush =
    let x := endState (Writer.flush (Writer.noting send) (t.writer, (t.connection, t.sendings)))
    ⟨x.1, x.2.1, x.2.2, t.accepted⟩ := by
  simp only [after, WriterCall.endState_run_flush, WriterCall.accepted, WriterCall.rows, Writer.taken, List.append_nil]

/-- A row that is added is a row that the writer is extended by. -/
theorem after_add_eq_extend (t : Trail σ) (row : List Value) :
    t.after send (.add row) = t.after send (.extend [row]) := by
  simp only [after_add, after_extend, Writer.endState_extend_single, Writer.taken_single]

/-- The notes change nothing: writer and connection stand as they stand without them. -/
theorem after_eq_run (t : Trail σ) (c : WriterCall) :
    ((t.after send c).writer, (t.after send c).connection) = endState (c.run send (t.writer, t.connection)) ∧
      (t.after send c).accepted = t.accepted ++ c.accepted send (t.writer, t.connection) := by
  constructor
  · have hstate : ((t.after send c).writer, (t.after send c).connection) =
        Writer.unnoted (endState (c.run (Writer.noting send) (t.writer, (t.connection, t.sendings)))) := rfl
    rw [hstate]
    cases c with
    | add row =>
      rw [WriterCall.endState_run_add, WriterCall.endState_run_add, Writer.unnoted_endState, Writer.forget_add]
      rfl
    | extend rows =>
      rw [WriterCall.endState_run_extend, WriterCall.endState_run_extend, Writer.unnoted_endState,
        Writer.forget_extend]
      rfl
    | flush =>
      rw [WriterCall.endState_run_flush, WriterCall.endState_run_flush, Writer.unnoted_endState, Writer.forget_flush]
      rfl
  · exact congrArg (t.accepted ++ ·) (Writer.taken_noting c.rows (t.writer, (t.connection, t.sendings)))

theorem keeps_after (hk : Keeps P) (t : Trail σ) (h : P t.writer t.sendings t.accepted) (c : WriterCall) :
    P (t.after send c).writer (t.after send c).sendings (t.after send c).accepted := by
  cases c with
  | add row =>
    rw [after_add_eq_extend, after_extend]
    exact hk.extend [row] h
  | extend rows =>
    rw [after_extend]
    exact hk.extend rows h
  | flush =>
    rw [after_flush]
    exact hk.flush h

theorem keeps_afterAll (hk : Keeps P) (t : Trail σ) (h : P t.writer t.sendings t.accepted) (calls : List WriterCall) :
    P (t.afterAll send calls).writer (t.afterAll send calls).sendings (t.afterAll send calls).accepted := by
  induction calls generalizing t with
  | nil => exact h
  | cons c rest ih => exact ih (t.after send c) (keeps_after hk t h c)

/-- What has been handed over stays noted. -/
theorem keeps_sendings (sendings : List Sending) : Keeps fun _ l _ => sendings <+: l where
  push _ h := h
  settle _ h := h.trans (List.prefix_append _ _)
  drop _ h := h.trans (List.prefix_append _ _)

/-- Where no chunk is lost, all the rows of a call are taken in. -/
theorem taken_of_executed {rows : List (List Value)} {w : Writer} {s : σ} {sendings : List Sending}
    (h : ∀ k ∈ (endState (Writer.extend (Writer.noting send) rows (w, (s, sendings)))).2.2, k.executed = true) :
    Writer.taken (Writer.noting send) rows (w, (s, sendings)) = rows := by
  induction rows generalizing w s sendings with
  | nil => rfl
  | cons row rest ih =>
    simp only [Writer.extend] at h
    simp only [Writer.taken]
    rcases Writer.add_noting send row w s sendings with ⟨-, he⟩ | ⟨-, ⟨s', he⟩ | ⟨e, s', he⟩⟩ <;>
      simp only [he] at h ⊢
    · rw [ih h]
    · rw [ih h]
    · have hfailed := h ⟨(w.push row).pending, false⟩ (List.mem_append_right _ (List.mem_singleton_self _))
      cases hfailed

theorem accepted_after {t : Trail σ} {c : WriterCall} (h : ∀ k ∈ (t.after send c).sendings, k.executed = true) :
    (t.after send c).accepted = t.accepted ++ c.rows := by
  cases c with
  | add row =>
    rw [after_add]
    rfl
  | extend rows =>
    rw [after_extend] at h ⊢
    exact congrArg (t.accepted ++ ·) (taken_of_executed h)
  | flush => exact (congrArg Trail.accepted (after_flush t)).trans (List.append_nil _).symm

theorem accepted_afterAll {t : Trail σ} {calls : List WriterCall}
    (h : ∀ k ∈ (t.afterAll send calls).sendings, k.executed = true) :
    (t.afterAll send calls).accepted = t.accepted ++ calls.flatMap WriterCall.rows := by
  induction calls generalizing t with
  | nil => exact (List.append_nil _).symm
  | cons c rest ih =>
    -- A chunk that was lost at this call would still be noted at the end.
    have hnoted : (t.after send c).sendings <+: ((t.after send c).afterAll send rest).sendings :=
      keeps_afterAll (keeps_sendings (t.after send c).sendings) (t.after send c) (List.prefix_refl _) rest
    have hstep : ∀ k ∈ (t.after send c).sendings, k.executed = true := fun k hk => h k (hnoted.mem hk)
    rw [List.flatMap_cons, ← List.append_assoc, ← accepted_after hstep]
    exact ih h

end Trail

end FeedLedger
