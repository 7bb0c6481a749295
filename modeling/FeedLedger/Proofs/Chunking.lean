import FeedLedger.Proofs.Sending
import Mathlib.Data.List.Forall2

namespace FeedLedger

namespace Writer

/-- What a writer has handed over and still holds are the rows that it has taken in, and it has counted the chunks that
were executed. -/
structure Conserves (schema : Schema) (batch : String) (size : Nat) (w : Writer) (sendings : List Sending)
    (accepted : List (List Value)) : Prop where
  laidOut : w.schema = schema
  named : w.batch = batch
  sized : w.chunkSize = size
  counted : w.rowsWritten = (Sending.written sendings).length
  flushed : w.flushes = (sendings.filter (·.executed)).length
  held : List.Forall₂ (fun p row => ∃ n, p = params schema batch n row) (Sending.handed sendings ++ w.pending) accepted

theorem keeps_conserves (schema : Schema) (batch : String) (size : Nat) : Keeps (Conserves schema batch size) where
  push {w sendings accepted} row h := by
    refine ⟨h.laidOut, h.named, h.sized, h.counted, h.flushed, ?_⟩
    rw [pending_push, ← List.append_assoc, h.laidOut, h.named]
    exact List.rel_append h.held (.cons ⟨w.ordinal, rfl⟩ .nil)
  settle {w sendings accepted} _ h := by
    refine ⟨h.laidOut, h.named, h.sized, ?_, ?_, ?_⟩
    · rw [Sending.written_concat_executed, List.length_append, ← h.counted]
      rfl
    · rw [List.filter_append, List.length_append, ← h.flushed]
      rfl
    · rw [Sending.handed_concat]
      exact (List.append_nil _).symm ▸ h.held
  drop {w sendings accepted} _ h := by
    refine ⟨h.laidOut, h.named, h.sized, ?_, ?_, ?_⟩
    · rw [Sending.written_concat_failed]
      exact h.counted
    · rw [List.filter_append, List.length_append, ← h.flushed]
      rfl
    · rw [Sending.handed_concat]
      exact (List.append_nil _).symm ▸ h.held

end Writer

namespace Trail

variable {σ ε : Type} {send : Writer → List Params → EStateM ε σ Unit}

/-- From `t` to `u` a writer has taken rows in, and the chunks that they filled were executed. -/
structure Filled (size : Nat) (rows : List (List Value)) (t u : Trail σ) (new : List Sending) : Prop where
  sendings : u.sendings = t.sendings ++ new
  full : ∀ k ∈ new, k.chunk.length = size
  executed : ∀ k ∈ new, k.executed = true
  accepted : u.accepted = t.accepted ++ rows
  room : u.writer.pending.length < size
  count : size * new.length + u.writer.pending.length = t.writer.pending.length + rows.length

/-- From `t` to `u` a writer has taken rows in up to the `n`-th, which filled a chunk that failed; the chunks before it
were executed. -/
structure Broken (size : Nat) (rows : List (List Value)) (t u : Trail σ) (new : List Sending) (n : Nat) : Prop where
  sendings : ∃ chunk, u.sendings = t.sendings ++ (new ++ [⟨chunk, false⟩]) ∧ chunk.length = size
  full : ∀ k ∈ new, k.chunk.length = size
  executed : ∀ k ∈ new, k.executed = true
  within : 0 < n ∧ n ≤ rows.length
  accepted : u.accepted = t.accepted ++ rows.take n
  dropped : u.writer.pending = []
  count : size * (new.length + 1) = t.writer.pending.length + n

/-- From `t` to `u` a writer was given rows: they all found room, or it stopped at one of them. -/
def Extended (size : Nat) (rows : List (List Value)) (t u : Trail σ) : Prop :=
  (∃ new, Filled size rows t u new) ∨ ∃ new n, Broken size rows t u new n

/-- From `t` to `u` a writer was flushed: what was pending is sent, and it was less than a chunk. -/
def Flushed (size : Nat) (t u : Trail σ) : Prop :=
  u.accepted = t.accepted ∧ u.writer.pending = [] ∧
    (t.writer.pending = [] ∧ u.sendings = t.sendings ∨
      0 < t.writer.pending.length ∧ t.writer.pending.length < size ∧
        ∃ executed, u.sendings = t.sendings ++ [⟨t.writer.pending, executed⟩])

theorem after_extend_cons_ok {t : Trail σ} {row : List Value} {x : Writer × (σ × List Sending)}
    (h : Writer.add (Writer.noting send) row (t.writer, (t.connection, t.sendings)) = .ok () x)
    (rows : List (List Value)) :
    t.after send (.extend (row :: rows)) = (t.after send (.add row)).after send (.extend rows) := by
  simp only [after_add, after_extend, Writer.extend, Writer.taken, h, endState_ok, List.append_assoc,
    List.singleton_append]

theorem after_extend_cons_error {t : Trail σ} {row : List Value} {e : ε} {x : Writer × (σ × List Sending)}
    (h : Writer.add (Writer.noting send) row (t.writer, (t.connection, t.sendings)) = .error e x)
    (rows : List (List Value)) : t.after send (.extend (row :: rows)) = t.after send (.add row) := by
  simp only [after_add, after_extend, Writer.extend, Writer.taken, h, endState_error]

variable {size : Nat}

theorem Filled.trans {first rest : List (List Value)} {t u v : Trail σ} {new more : List Sending}
    (h : Filled size first t u new) (h' : Filled size rest u v more) :
    Filled size (first ++ rest) t v (new ++ more) where
  sendings := by rw [h'.sendings, h.sendings, List.append_assoc]
  full := List.forall_mem_append.2 ⟨h.full, h'.full⟩
  executed := List.forall_mem_append.2 ⟨h.executed, h'.executed⟩
  accepted := by rw [h'.accepted, h.accepted, List.append_assoc]
  room := h'.room
  count := by
    have hfirst := h.count
    have hrest := h'.count
    rw [List.length_append, List.length_append, Nat.mul_add]
    omega

theorem Filled.broken {first rest : List (List Value)} {t u v : Trail σ} {new more : List Sending} {n : Nat}
    (h : Filled size first t u new) (h' : Broken size rest u v more n) :
    Broken size (first ++ rest) t v (new ++ more) (first.length + n) where
  sendings := by
    obtain ⟨chunk, hsendings, hlength⟩ := h'.sendings
    refine ⟨chunk, ?_, hlength⟩
    rw [hsendings, h.sendings]
    simp only [List.append_assoc]
  full := List.forall_mem_append.2 ⟨h.full, h'.full⟩
  executed := List.forall_mem_append.2 ⟨h.executed, h'.executed⟩
  within := by
    have hwithin := h'.within
    rw [List.length_append]
    omega
  accepted := by rw [h'.accepted, h.accepted, List.append_assoc, List.take_length_add_append]
  dropped := h'.dropped
  count := by
    have hfirst := h.count
    have hrest := h'.count
    rw [List.length_append, Nat.add_assoc, Nat.mul_add]
    omega

/-- The rows behind those that are given change nothing. -/
theorem Broken.append {first : List (List Value)} {t u : Trail σ} {new : List Sending} {n : Nat}
    (h : Broken size first t u new n) (rest : List (List Value)) : Broken size (first ++ rest) t u new n where
  sendings := h.sendings
  full := h.full
  executed := h.executed
  within := by
    have hwithin := h.within
    rw [List.length_append]
    omega
  accepted := by rw [h.accepted, List.take_append_of_le_length h.within.2]
  dropped := h.dropped
  count := h.count

/-- A row that is taken in fills a chunk or finds room. -/
theorem filled_add {t : Trail σ} (hsize : t.writer.chunkSize = size) (hroom : t.writer.pending.length < size)
    {row : List Value} {x : Writer × (σ × List Sending)}
    (h : Writer.add (Writer.noting send) row (t.writer, (t.connection, t.sendings)) = .ok () x) :
    ∃ new, Filled size [row] t (t.after send (.add row)) new := by
  have hpending := t.writer.length_pending_push row
  rw [after_add, h]
  rcases Writer.add_noting send row t.writer t.connection t.sendings with
    ⟨hlt, he⟩ | ⟨hfull, ⟨s', he⟩ | ⟨e, s', he⟩⟩ <;> cases h.symm.trans he
  · refine ⟨[], (List.append_nil _).symm, by simp, by simp, rfl, ?_, ?_⟩
    · change (t.writer.push row).pending.length < size
      omega
    · change size * 0 + (t.writer.push row).pending.length = t.writer.pending.length + 1
      omega
  · have hlength : (t.writer.push row).pending.length = size := by omega
    refine ⟨[⟨(t.writer.push row).pending, true⟩], rfl, List.forall_mem_singleton.2 hlength, by simp, rfl, ?_, ?_⟩
    · change 0 < size
      omega
    · change size * 1 + 0 = t.writer.pending.length + 1
      omega

theorem broken_add {t : Trail σ} (hsize : t.writer.chunkSize = size) (hroom : t.writer.pending.length < size)
    {row : List Value} {e : ε} {x : Writer × (σ × List Sending)}
    (h : Writer.add (Writer.noting send) row (t.writer, (t.connection, t.sendings)) = .error e x) :
    Broken size [row] t (t.after send (.add row)) [] 1 := by
  have hpending := t.writer.length_pending_push row
  rw [after_add, h]
  rcases Writer.add_noting send row t.writer t.connection t.sendings with
    ⟨hlt, he⟩ | ⟨hfull, ⟨s', he⟩ | ⟨e', s', he⟩⟩ <;> cases h.symm.trans he
  refine ⟨⟨(t.writer.push row).pending, rfl, by omega⟩, by simp, by simp, by simp, rfl, rfl, ?_⟩
  change size * (0 + 1) = t.writer.pending.length + 1
  omega

theorem keeps_chunkSize (size : Nat) : Keeps fun w _ _ => w.chunkSize = size where
  push _ h := h
  settle _ h := h
  drop _ h := h

theorem extended_extend {t : Trail σ} (hsize : t.writer.chunkSize = size) (hroom : t.writer.pending.length < size)
    (rows : List (List Value)) : Extended size rows t (t.after send (.extend rows)) := by
  induction rows generalizing t with
  | nil =>
    refine .inl ⟨[], (List.append_nil _).symm, by simp, by simp, rfl, hroom, ?_⟩
    exact Nat.zero_add _
  | cons row rest ih =>
    cases h : Writer.add (Writer.noting send) row (t.writer, (t.connection, t.sendings)) with
    | ok u x =>
      obtain ⟨new, hfilled⟩ := filled_add hsize hroom h
      rw [after_extend_cons_ok h]
      have hsize' : (t.after send (.add row)).writer.chunkSize = size := keeps_after (keeps_chunkSize size) t hsize _
      rcases ih hsize' hfilled.room with ⟨more, hrest⟩ | ⟨more, n, hrest⟩
      · exact .inl ⟨new ++ more, hfilled.trans hrest⟩
      · exact .inr ⟨new ++ more, _, hfilled.broken hrest⟩
    | error e x =>
      rw [after_extend_cons_error h]
      exact .inr ⟨[], 1, (broken_add hsize hroom h).append rest⟩

theorem extended_add {t : Trail σ} (hsize : t.writer.chunkSize = size) (hroom : t.writer.pending.length < size)
    (row : List Value) : Extended size [row] t (t.after send (.add row)) := by
  rw [after_add_eq_extend]
  exact extended_extend hsize hroom [row]

theorem flushed_flush {t : Trail σ} (hroom : t.writer.pending.length < size) :
    Flushed size t (t.after send .flush) := by
  rw [after_flush]
  refine ⟨rfl, ?_⟩
  rcases Writer.flush_noting send t.writer t.connection t.sendings with
    ⟨hp, he⟩ | ⟨hp, ⟨s', he⟩ | ⟨e, s', he⟩⟩ <;> rw [he]
  · exact ⟨hp, .inl ⟨hp, rfl⟩⟩
  · exact ⟨rfl, .inr ⟨List.length_pos_of_ne_nil hp, hroom, true, rfl⟩⟩
  · exact ⟨rfl, .inr ⟨List.length_pos_of_ne_nil hp, hroom, false, rfl⟩⟩

theorem Extended.room {rows : List (List Value)} {t u : Trail σ} (hpos : 0 < size) (h : Extended size rows t u) :
    u.writer.pending.length < size := by
  rcases h with ⟨new, h⟩ | ⟨new, n, h⟩
  · exact h.room
  · rw [h.dropped]
    exact hpos

theorem Extended.full {rows : List (List Value)} {t u : Trail σ} (h : Extended size rows t u)
    (ht : ∀ k ∈ t.sendings, k.chunk.length = size) : ∀ k ∈ u.sendings, k.chunk.length = size := by
  rcases h with ⟨new, h⟩ | ⟨new, n, h⟩
  · rw [h.sendings]
    exact List.forall_mem_append.2 ⟨ht, h.full⟩
  · obtain ⟨chunk, hsendings, hlength⟩ := h.sendings
    rw [hsendings]
    exact List.forall_mem_append.2 ⟨ht, List.forall_mem_append.2 ⟨h.full, List.forall_mem_singleton.2 hlength⟩⟩

/-- Between calls less than a chunk is pending. -/
theorem room_afterAll {t : Trail σ} (hpos : 0 < size) (hsize : t.writer.chunkSize = size)
    (hroom : t.writer.pending.length < size) (calls : List WriterCall) :
    (t.afterAll send calls).writer.pending.length < size := by
  induction calls generalizing t with
  | nil => exact hroom
  | cons c rest ih =>
    refine ih (keeps_after (keeps_chunkSize size) t hsize c) ?_
    cases c with
    | add row => exact (extended_add hsize hroom row).room hpos
    | extend rows => exact (extended_extend hsize hroom rows).room hpos
    | flush =>
      rw [(flushed_flush hroom).2.1]
      exact hpos

/-- Without flushes all chunks are full. -/
theorem full_afterAll {t : Trail σ} (hpos : 0 < size) (hsize : t.writer.chunkSize = size)
    (hroom : t.writer.pending.length < size) (ht : ∀ k ∈ t.sendings, k.chunk.length = size) {calls : List WriterCall}
    (hcalls : ∀ c ∈ calls, c ≠ .flush) : ∀ k ∈ (t.afterAll send calls).sendings, k.chunk.length = size := by
  induction calls generalizing t with
  | nil => exact ht
  | cons c rest ih =>
    have hsize' : (t.after send c).writer.chunkSize = size := keeps_after (keeps_chunkSize size) t hsize c
    obtain ⟨hc, hrest⟩ := List.forall_mem_cons.1 hcalls
    cases c with
    | add row =>
      have hextended : Extended size [row] t (t.after send (.add row)) := extended_add hsize hroom row
      exact ih hsize' (hextended.room hpos) (hextended.full ht) hrest
    | extend rows =>
      have hextended : Extended size rows t (t.after send (.extend rows)) := extended_extend hsize hroom rows
      exact ih hsize' (hextended.room hpos) (hextended.full ht) hrest
    | flush => exact absurd rfl hc

end Trail

namespace Writer

theorem conserves_make {schema : Schema} {dialect batch : String} {size : Nat} {w : Writer}
    (h : make schema dialect size batch = .ok w) : Conserves schema batch size w [] [] := by
  obtain ⟨-, statement, rfl⟩ := make_eq_ok h
  exact ⟨rfl, rfl, Int.toNat_natCast size, rfl, rfl, .nil⟩

end Writer

/-- A quotient that is rounded up. -/
theorem ceil_div {size p : Nat} (k : Nat) (h : p < size) :
    (size * k + p + size - 1) / size = if p = 0 then k else k + 1 := by
  have hsplit : size * k + p + size - 1 = size * k + (p + size - 1) := by omega
  rw [hsplit, Nat.mul_add_div (by omega)]
  split
  · rw [Nat.div_eq_of_lt (by omega), Nat.add_zero]
  · have hone : (p + size - 1) / size = 1 := Nat.div_eq_of_lt_le (by omega) (by omega)
    rw [hone]

section

variable {σ ε : Type} {schema : Schema} {dialect batch : String} {size : Nat} {w : Writer}

end

end FeedLedger
