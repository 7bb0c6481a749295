import FeedLedger.Batch
import Mathlib.Tactic.Common

namespace FeedLedger

/-- What an insert statement of a schema is made of. -/
theorem Schema.insert_eq_ok {s : Schema} {dialect : String} {i : Insert} (h : s.insert dialect = .ok i) :
    ∃ t conflict, Catalog.table? s.table = some t ∧ s.conflict t = .ok conflict ∧
      i = ⟨t, t.columnNames.filter (s.writeColumns.contains ·), conflict⟩ := by
  simp only [Schema.insert] at h
  split at h
  · cases h
  rename_i t ht
  split at h
  · cases h
  cases hc : s.conflict t with
  | error f => simp [hc, Except.map] at h
  | ok conflict =>
    simp only [hc, Except.map, Except.ok.injEq] at h
    exact ⟨t, conflict, ht, hc, h.symm⟩

structure Chunk where
  statement : Insert
  rows : List Params

def Chunk.table (k : Chunk) : String := k.statement.table.name

namespace Store

/-- Hands the parameters of a chunk to their columns and executes it. -/
def executeChunk (s : Store) (k : Chunk) : Except Failure Store :=
  match k.statement.bind k.rows with
  | .error f => .error f
  | .ok bound => s.execute bound

/-- Executes chunks in order, up to the first failure. -/
def executeChunks (s : Store) : List Chunk → Except Failure Store
  | [] => .ok s
  | k :: rest =>
    match s.executeChunk k with
    | .error f => .error f
    | .ok t => t.executeChunks rest

theorem executeChunks_append {s t : Store} {first : List Chunk} (h : s.executeChunks first = .ok t)
    (rest : List Chunk) : s.executeChunks (first ++ rest) = t.executeChunks rest := by
  induction first generalizing s with
  | nil => cases h; rfl
  | cons k r ih =>
    simp only [executeChunks, List.cons_append] at h ⊢
    cases hk : s.executeChunk k with
    | error f => simp [hk] at h
    | ok u =>
      simp only [hk] at h ⊢
      exact ih h

theorem executeChunks_single (s : Store) (k : Chunk) : s.executeChunks [k] = s.executeChunk k := by
  simp only [executeChunks]
  cases s.executeChunk k <;> rfl

theorem rows_executeChunk_ne {s t : Store} {k : Chunk} (h : s.executeChunk k = .ok t) {table : String}
    (hne : table ≠ k.table) : t.rows table = s.rows table := by
  simp only [executeChunk] at h
  split at h
  · cases h
  · rename_i bound hb
    obtain ⟨rows, _, rfl⟩ := rows_of_execute h
    rw [Insert.statement_of_bind hb]
    exact rows_set_ne hne s rows

/-- What keeps a chunk from being executed: the store refuses it, or an outage strikes. -/
def Stops (s : Store) (outages : Outages) (k : Chunk) (f : Failure) : Prop :=
  s.executeChunk k = .error f ∨ ∃ p, outages.at? p = some f

end Store

namespace Work

theorem executeChunk_of_execute_ok {outages : Outages} {i : Insert} {chunk : List Params} {w w' : Work}
    (h : execute outages i chunk w = .ok () w') : w.store.executeChunk ⟨i, chunk⟩ = .ok w'.store := by
  simp only [execute] at h
  simp only [Store.executeChunk]
  cases hb : i.bind chunk with
  | error f => simp [hb] at h
  | ok bound =>
    simp only [hb] at h ⊢
    split at h
    · cases h
    · split at h
      · rename_i store hs
        cases h
        exact hs
      · cases h

theorem stops_of_execute_error {outages : Outages} {i : Insert} {chunk : List Params} {w w' : Work} {f : Failure}
    (h : execute outages i chunk w = .error f w') : w'.store = w.store ∧ w.store.Stops outages ⟨i, chunk⟩ f := by
  simp only [execute] at h
  simp only [Store.Stops, Store.executeChunk]
  cases hb : i.bind chunk with
  | error g =>
    simp only [hb] at h ⊢
    cases h
    exact ⟨rfl, .inl rfl⟩
  | ok bound =>
    simp only [hb] at h ⊢
    split at h
    · rename_i g hg
      cases h
      exact ⟨rfl, .inr ⟨_, hg⟩⟩
    · split at h
      · cases h
      · rename_i g hs
        cases h
        exact ⟨rfl, .inl hs⟩

theorem executeChunk_of_execute_error {i : Insert} {chunk : List Params} {w w' : Work} {f : Failure}
    (h : execute [] i chunk w = .error f w') : w.store.executeChunk ⟨i, chunk⟩ = .error f := by
  rcases (stops_of_execute_error h).2 with hrefused | ⟨p, hp⟩
  · exact hrefused
  · cases hp

theorem executeChunk_of_send_ok {outages : Outages} {writer : Writer} {chunk : List Params} {w w' : Work}
    (h : send outages writer chunk w = .ok () w') :
    w.store.executeChunk ⟨writer.statement, chunk⟩ = .ok w'.store := by
  simp only [send] at h
  split at h
  · rename_i u he
    cases h
    have := executeChunk_of_execute_ok he
    exact this
  · cases h

theorem stops_of_send_error {outages : Outages} {writer : Writer} {chunk : List Params} {w w' : Work} {f : Failure}
    (h : send outages writer chunk w = .error f w') :
    w'.store = w.store ∧ w.store.Stops outages ⟨writer.statement, chunk⟩ f := by
  simp only [send] at h
  split at h
  · cases h
  · rename_i g u he
    cases h
    exact stops_of_execute_error he

end Work

namespace Writer

/-- The parameters of rows with ordinals from `n` on. -/
def paramsFrom (schema : Schema) (batch : String) (n : Nat) : List (List Value) → List Params
  | [] => []
  | row :: rest => params schema batch n row :: paramsFrom schema batch (n + 1) rest

/-- The parameters of the next rows. -/
def paramsOf (w : Writer) (rows : List (List Value)) : List Params := paramsFrom w.schema w.batch w.ordinal rows

theorem length_paramsFrom (schema : Schema) (batch : String) (n : Nat) (rows : List (List Value)) :
    (paramsFrom schema batch n rows).length = rows.length := by
  induction rows generalizing n with
  | nil => rfl
  | cons row rest ih => simp [paramsFrom, ih]

theorem paramsFrom_append (schema : Schema) (batch : String) (n : Nat) (first rest : List (List Value)) :
    paramsFrom schema batch n (first ++ rest) =
      paramsFrom schema batch n first ++ paramsFrom schema batch (n + first.length) rest := by
  induction first generalizing n with
  | nil => rfl
  | cons row r ih =>
    simp only [List.cons_append, paramsFrom, ih, List.length_cons]
    rw [show n + 1 + r.length = n + (r.length + 1) by omega]

theorem mem_paramsFrom {schema : Schema} {batch : String} {n : Nat} {rows : List (List Value)} {p : Params}
    (h : p ∈ paramsFrom schema batch n rows) :
    ∃ row ∈ rows, ∃ m, n ≤ m ∧ m < n + rows.length ∧ p = params schema batch m row := by
  induction rows generalizing n with
  | nil => cases h
  | cons row rest ih =>
    rw [paramsFrom] at h
    rw [List.length_cons]
    rcases List.mem_cons.1 h with rfl | h
    · exact ⟨row, List.mem_cons_self, n, by omega, by omega, rfl⟩
    · obtain ⟨r, hr, m, hle, hlt, hp⟩ := ih h
      exact ⟨r, List.mem_cons_of_mem _ hr, m, by omega, by omega, hp⟩

/-- What holds of the parameters of any two ordinals holds pairwise of those of a row of rows. -/
theorem pairwise_paramsFrom {R : Params → Params → Prop} {schema : Schema} {batch : String} (n : Nat)
    (rows : List (List Value))
    (h : ∀ i j row row', i < j → j < n + rows.length → R (params schema batch i row) (params schema batch j row')) :
    (paramsFrom schema batch n rows).Pairwise R := by
  induction rows generalizing n with
  | nil => exact List.Pairwise.nil
  | cons row rest ih =>
    rw [List.length_cons] at h
    rw [paramsFrom, List.pairwise_cons]
    constructor
    · intro q hq
      obtain ⟨row', -, m, hle, hlt, rfl⟩ := mem_paramsFrom hq
      exact h n m row row' (by omega) (by omega)
    · exact ih (n + 1) fun i j row row' hij hj => h i j row row' hij (by omega)

theorem params_mem_paramsFrom (schema : Schema) (batch : String) (n : Nat) {rows : List (List Value)}
    {row : List Value} (h : row ∈ rows) : ∃ m, params schema batch m row ∈ paramsFrom schema batch n rows := by
  induction rows generalizing n with
  | nil => cases h
  | cons first rest ih =>
    rw [paramsFrom]
    rcases List.mem_cons.1 h with rfl | h
    · exact ⟨n, List.mem_cons_self⟩
    · obtain ⟨m, hm⟩ := ih (n + 1) h
      exact ⟨m, List.mem_cons_of_mem _ hm⟩

/-- `w'` is `w` after taking rows in: chunks have been executed on the way, and they hold, with what is pending
now, what was pending before and the new rows. -/
structure Took (w : Writer) (before : Store) (rows : List (List Value)) (chunks : List (List Params))
    (w' : Writer) (after : Store) : Prop where
  executed : before.executeChunks (chunks.map fun k => ⟨w.statement, k⟩) = .ok after
  filled : ∀ k ∈ chunks, k ≠ []
  schema : w'.schema = w.schema
  statement : w'.statement = w.statement
  batch : w'.batch = w.batch
  written : w'.rowsWritten = w.rowsWritten + chunks.flatten.length
  taken : chunks.flatten ++ w'.pending = w.pending ++ w.paramsOf rows

theorem Took.ordinal {w w' : Writer} {before after : Store} {rows : List (List Value)}
    {chunks : List (List Params)} (h : Took w before rows chunks w' after) :
    w'.ordinal = w.ordinal + rows.length := by
  have hl := congrArg List.length h.taken
  simp only [List.length_append, paramsOf, length_paramsFrom] at hl
  simp only [Writer.ordinal, h.written]
  omega

theorem Took.paramsOf_append {w w' : Writer} {before after : Store} {rows : List (List Value)}
    {chunks : List (List Params)} (h : Took w before rows chunks w' after) (rest : List (List Value)) :
    w.paramsOf (rows ++ rest) = w.paramsOf rows ++ w'.paramsOf rest := by
  rw [paramsOf, paramsOf, paramsOf, h.schema, h.batch, h.ordinal]
  exact paramsFrom_append w.schema w.batch w.ordinal rows rest

/-- What has been sent and what is still to come, once some rows are taken in. -/
theorem Took.taken_append {w w' : Writer} {before after : Store} {rows : List (List Value)}
    {chunks : List (List Params)} (h : Took w before rows chunks w' after) (rest : List (List Value)) :
    chunks.flatten ++ (w'.pending ++ w'.paramsOf rest) = w.pending ++ w.paramsOf (rows ++ rest) := by
  rw [h.paramsOf_append rest, ← List.append_assoc, ← List.append_assoc, h.taken]

theorem Took.append {w w₁ w₂ : Writer} {s s₁ s₂ : Store} {first rest : List (List Value)}
    {chunks more : List (List Params)} (h : Took w s first chunks w₁ s₁) (h' : Took w₁ s₁ rest more w₂ s₂) :
    Took w s (first ++ rest) (chunks ++ more) w₂ s₂ where
  executed := by
    rw [List.map_append, Store.executeChunks_append h.executed, ← h.statement]
    exact h'.executed
  filled := by
    intro k hk
    rcases List.mem_append.1 hk with hk | hk
    · exact h.filled k hk
    · exact h'.filled k hk
  schema := h'.schema.trans h.schema
  statement := h'.statement.trans h.statement
  batch := h'.batch.trans h.batch
  written := by
    rw [h'.written, h.written]
    simp only [List.flatten_append, List.length_append]
    omega
  taken := by
    rw [List.flatten_append, List.append_assoc, h'.taken]
    exact h.taken_append rest

variable {outages : Outages} {w w' : Writer} {k k' : Work}

theorem flush_ok {n : Nat} (h : flush (Work.send outages) (w, k) = .ok n (w', k')) :
    w.pending = [] ∧ w' = w ∧ k' = k ∨
      w.pending ≠ [] ∧ w' = w.settle ∧ k.store.executeChunk ⟨w.statement, w.pending⟩ = .ok k'.store := by
  simp only [flush] at h
  split at h
  · rename_i hp
    cases h
    exact .inl ⟨hp, rfl, rfl⟩
  · rename_i hp
    split at h
    · rename_i u hs
      cases h
      exact .inr ⟨hp, rfl, Work.executeChunk_of_send_ok hs⟩
    · cases h

theorem flush_error {f : Failure} (h : flush (Work.send outages) (w, k) = .error f (w', k')) :
    w.pending ≠ [] ∧ k'.store = k.store ∧ k.store.Stops outages ⟨w.statement, w.pending⟩ f := by
  simp only [flush] at h
  split at h
  · cases h
  · rename_i hp
    split at h
    · cases h
    · rename_i g u hs
      cases h
      exact ⟨hp, Work.stops_of_send_error hs⟩

/-- The chunk that is sent because it is full. -/
def full (w : Writer) : List (List Params) := if w.chunkSize ≤ w.pending.length then [w.pending] else []

/-- The chunks that a writer sends while it takes rows in, up to one that fails. -/
def offered (outages : Outages) : List (List Value) → Writer × Work → List (List Params)
  | [], _ => []
  | row :: rest, t =>
    (t.1.push row).full ++
      match add (Work.send outages) row t with
      | .ok _ t => offered outages rest t
      | .error _ _ => []

theorem paramsOf_single (w : Writer) (row : List Value) :
    w.paramsOf [row] = [params w.schema w.batch w.ordinal row] := rfl

theorem took_add {row : List Value} (h : add (Work.send outages) row (w, k) = .ok () (w', k')) :
    Took w k.store [row] (w.push row).full w' k'.store := by
  simp only [add] at h
  split at h
  · rename_i hfull
    split at h
    · rename_i t hf
      cases h
      rw [full, if_pos hfull]
      rcases flush_ok hf with ⟨hp, -, -⟩ | ⟨hp, rfl, he⟩
      · simp [pending_push] at hp
      · constructor
        case executed =>
          rw [List.map_singleton, Store.executeChunks_single]
          exact he
        case filled => simpa using hp
        case schema => rfl
        case statement => rfl
        case batch => rfl
        case written => simp [settle, drop, push]
        case taken => simp [settle, drop, pending_push, paramsOf_single]
    · cases h
  · rename_i hroom
    cases h
    rw [full, if_neg hroom]
    exact ⟨rfl, by simp, rfl, rfl, rfl, rfl, by simp [pending_push, paramsOf_single]⟩

theorem took_extend {rows : List (List Value)}
    (h : extend (Work.send outages) rows (w, k) = .ok () (w', k')) :
    Took w k.store rows (offered outages rows (w, k)) w' k'.store := by
  induction rows generalizing w k with
  | nil =>
    cases h
    exact ⟨rfl, by simp [offered], rfl, rfl, rfl, rfl, by simp [offered, paramsOf, paramsFrom]⟩
  | cons row rest ih =>
    simp only [extend] at h
    split at h
    · rename_i t ht
      obtain ⟨w₁, k₁⟩ := t
      have hrest := ih h
      simp only [offered, ht]
      exact (took_add ht).append hrest
    · cases h

theorem add_error {row : List Value} {f : Failure} (h : add (Work.send outages) row (w, k) = .error f (w', k')) :
    (w.push row).full = [w.pending ++ w.paramsOf [row]] ∧ k'.store = k.store ∧
      k.store.Stops outages ⟨w.statement, w.pending ++ w.paramsOf [row]⟩ f := by
  simp only [add] at h
  split at h
  · rename_i hfull
    split at h
    · cases h
    · rename_i t hf
      cases h
      obtain ⟨-, hstore, hstops⟩ := flush_error hf
      exact ⟨if_pos hfull, hstore, hstops⟩
  · cases h

/-- Taking rows in fails at the last chunk that is sent; the ones before it have been executed. -/
theorem extend_error {rows : List (List Value)} {f : Failure}
    (h : extend (Work.send outages) rows (w, k) = .error f (w', k')) :
    ∃ chunks last, offered outages rows (w, k) = chunks ++ [last] ∧
      k.store.executeChunks (chunks.map fun c => ⟨w.statement, c⟩) = .ok k'.store ∧
      k'.store.Stops outages ⟨w.statement, last⟩ f ∧ (∀ c ∈ chunks ++ [last], c ≠ []) ∧
      (chunks ++ [last]).flatten <+: w.pending ++ w.paramsOf rows := by
  induction rows generalizing w k with
  | nil => cases h
  | cons row rest ih =>
    simp only [extend] at h
    split at h
    · rename_i t ht
      obtain ⟨w₁, k₁⟩ := t
      have hc := took_add ht
      obtain ⟨more, last, hoffered, hexec, hstops, hfilled, hprefix⟩ := ih h
      have hall : (w.push row).full.flatten ++ (w₁.pending ++ w₁.paramsOf rest) =
          w.pending ++ w.paramsOf (row :: rest) := hc.taken_append rest
      refine ⟨(w.push row).full ++ more, last, ?_, ?_, ?_, ?_, ?_⟩
      · simp only [offered, ht, hoffered, List.append_assoc]
      · rw [List.map_append, Store.executeChunks_append hc.executed, ← hc.statement]
        exact hexec
      · rw [← hc.statement]
        exact hstops
      · intro c hmem
        rw [List.append_assoc] at hmem
        rcases List.mem_append.1 hmem with hold | hnew
        · exact hc.filled c hold
        · exact hfilled c hnew
      · rw [List.append_assoc, List.flatten_append, ← hall]
        exact (List.prefix_append_right_inj _).2 hprefix
    · rename_i g t ht
      cases h
      obtain ⟨hfull, hstore, hstops⟩ := add_error ht
      refine ⟨[], w.pending ++ w.paramsOf [row], ?_, ?_, ?_, ?_, ?_⟩
      · simp only [offered, ht, hfull, List.nil_append, List.append_nil]
      · rw [hstore]
        rfl
      · rw [hstore]
        exact hstops
      · simp [paramsOf_single]
      · have hrow : w.paramsOf (row :: rest) = w.paramsOf [row] ++
            paramsFrom w.schema w.batch (w.ordinal + 1) rest := paramsFrom_append _ _ _ [row] rest
        rw [hrow, ← List.append_assoc]
        simp

end Writer

end FeedLedger
