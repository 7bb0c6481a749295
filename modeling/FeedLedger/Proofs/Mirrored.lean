import FeedLedger.Proofs.Answers
import FeedLedger.Proofs.LastOffset
import FeedLedger.Proofs.Metered

namespace FeedLedger

namespace Ledger

theorem total_add (key : String) (n : Nat) (l : List (String × Nat)) : total (Keyed.add key n l) = total l + n := by
  have hput := total_put (fun n : Nat => n) key ((Keyed.get? key l).getD 0 + n) l
  simp only [List.map_id_fun', id, Prod.mk.eta, Option.map_id_fun'] at hput
  rw [Keyed.add]
  omega

theorem total_addAll (more l : List (String × Nat)) : total (Keyed.addAll more l) = total l + total more := by
  induction more generalizing l with
  | nil => rfl
  | cons p rest ih =>
    obtain ⟨key, n⟩ := p
    have hrest : total (Keyed.addAll rest (Keyed.add key n l)) = total (Keyed.add key n l) + total rest := ih _
    rw [total_add] at hrest
    rw [total, ← Nat.add_assoc, ← hrest]
    rfl

end Ledger

namespace Attempt

/-- The rows that a caller is told of. -/
def counted : Except Failure Answer → Nat
  | .ok (.rows n) => n
  | .ok .done | .ok (.batches _) | .error _ => 0

/-- The rows that callers are told of in some calls. -/
def told : List (Attempt × Except Failure Answer) → Nat
  | [] => 0
  | (_, r) :: rest => counted r + told rest

theorem told_concat (log : List (Attempt × Except Failure Answer)) (a : Attempt) (r : Except Failure Answer) :
    told (log ++ [(a, r)]) = told log + counted r := by
  induction log with
  | nil => exact Nat.add_comm _ _
  | cons e rest ih =>
    simp only [List.cons_append, told]
    rw [ih, Nat.add_assoc]

/-- How many rows the calls that returned brought for a table. -/
def brought (table : String) (log : List (Attempt × Except Failure Answer)) : Nat :=
  ((log.filter (·.2.isOk)).flatMap (·.1.rowsFor table)).length

theorem brought_concat (table : String) (log : List (Attempt × Except Failure Answer)) (a : Attempt)
    (r : Except Failure Answer) :
    brought table (log ++ [(a, r)]) = brought table log + if r.isOk then (a.rowsFor table).length else 0 := by
  cases hr : r.isOk <;> simp [brought, hr]

def interrupted : Except Failure Answer → Bool
  | .error f => f.isInterrupt
  | .ok _ => false

/-- Whether a call begins a batch of a stream. -/
def BeginsOn (a : Attempt) (stream : String) : Prop := a.begins?.map (·.label) = some stream

instance (a : Attempt) (stream : String) : Decidable (a.BeginsOn stream) := inferInstanceAs (Decidable (_ = _))

/-- How the last of some calls came out that began a batch of a stream. -/
def lastOutcome (stream : String) (log : List (Attempt × Except Failure Answer)) : Option Bool :=
  (log.filter (·.1.BeginsOn stream)).getLast?.map (·.2.isOk)

theorem lastOutcome_concat (stream : String) (log : List (Attempt × Except Failure Answer))
    (e : Attempt × Except Failure Answer) :
    lastOutcome stream (log ++ [e]) = if e.1.BeginsOn stream then some e.2.isOk else lastOutcome stream log := by
  by_cases hb : e.1.BeginsOn stream <;> simp [lastOutcome, hb]

/-- The metrics of a ledger show what its store holds and how the calls so far came out. -/
structure Mirrored (l : Ledger) (log : List (Attempt × Except Failure Answer)) : Prop where
  sound : l.store.Sound
  offsets : l.store.Lists l.metrics.committedOffset
  rows : ∀ table, (Keyed.get? table l.metrics.rowsWritten).getD 0 = brought table log
  total : Ledger.total l.metrics.rowsWritten = told log
  status : ∀ stream, Keyed.get? stream l.metrics.status = lastOutcome stream (log.filter (!interrupted ·.2))

theorem mirrored_fresh : Mirrored .fresh [] where
  sound := Store.sound_empty
  offsets := ⟨rfl, List.nodup_nil⟩
  rows := fun _ => rfl
  total := rfl
  status := fun _ => rfl

variable {a : Attempt} {l : Ledger} {log : List (Attempt × Except Failure Answer)} {o : BatchOrigin}

/-- A call that is not interrupted counts for the status of the stream whose batch it begins. -/
theorem lastOutcome_of_begins (stream : String) {r : Except Failure Answer} (hr : interrupted r = false)
    (hbegins : a.begins? = some o) :
    lastOutcome stream ((log ++ [(a, r)]).filter (!interrupted ·.2)) =
      if stream = o.label then some r.isOk else lastOutcome stream (log.filter (!interrupted ·.2)) := by
  rw [List.filter_append, List.filter_cons_of_pos (by simp [hr]), List.filter_nil, lastOutcome_concat]
  simp only [BeginsOn, hbegins, Option.map_some, Option.some.injEq, eq_comm]

theorem lastOutcome_of_not_begins (stream : String) {r : Except Failure Answer}
    (h : interrupted r = true ∨ a.begins? = none) :
    lastOutcome stream ((log ++ [(a, r)]).filter (!interrupted ·.2)) =
      lastOutcome stream (log.filter (!interrupted ·.2)) := by
  rw [List.filter_append]
  cases hr : interrupted r with
  | true => simp [hr]
  | false =>
    have hnone : a.begins? = none := h.resolve_left (by simp [hr])
    rw [List.filter_cons_of_pos (by simp [hr]), List.filter_nil, lastOutcome_concat, if_neg (by simp [BeginsOn, hnone])]

/-- A call that fails without having begun a batch changes nothing. -/
theorem Mirrored.refused (h : Mirrored l log) (hbegins : a.begins? = none) {f : Failure}
    (hf : (a.carryOut l).1 = .error f) (hl : (a.carryOut l).2 = l) :
    Mirrored (a.carryOut l).2 (log ++ [(a, (a.carryOut l).1)]) := by
  rw [hl, hf]
  refine ⟨h.sound, h.offsets, fun table => ?_, ?_, fun stream => ?_⟩
  · rw [h.rows, brought_concat]
    rfl
  · rw [h.total, told_concat]
    rfl
  · rw [h.status, lastOutcome_of_not_begins stream (.inr hbegins)]

/-- A batch that fails leaves store, rows and offsets as they are. Unless it was interrupted, it shows in the status. -/
theorem Mirrored.failed (h : Mirrored l log) {s : Settled} (hb : a.Begun l o s) {f : Failure}
    (hf : s.result = .error f) (hs : (a.carryOut l).2.store = l.store) :
    Mirrored (a.carryOut l).2 (log ++ [(a, (a.carryOut l).1)]) := by
  have hresult : (a.carryOut l).1 = .error (f.during (.persistBatch o.stream o.offset)) := by
    rw [hb.result, Ledger.batchAnswer, hf]
    rfl
  have hmetrics := Ledger.batchMetrics_error hf l.metrics o
  rw [hb.ledger] at hs ⊢
  simp only at hs
  rw [hresult, hs, hmetrics]
  refine ⟨h.sound, h.offsets, fun table => ?_, ?_, fun stream => ?_⟩
  · simp only [h.rows, brought_concat]
    rfl
  · simp only [h.total, told_concat]
    rfl
  · simp only
    cases hi : f.isInterrupt with
    | true => rw [if_pos rfl, h.status, lastOutcome_of_not_begins stream (.inl (by simp [interrupted, hi]))]
    | false =>
      rw [if_neg Bool.false_ne_true, Keyed.get?_put, h.status,
        lastOutcome_of_begins stream (by simp [interrupted, hi]) hb.begins]
      rfl

theorem lists_of_committed {entries : List (String × Int)} {chunks : List Chunk} {before after : Store} {name : String}
    (h : before.Lists entries) (hs : before.Sound) (hc : a.Committed o chunks before after)
    (hname : a.write.stream = .text name) : o.label = name ∧ after.Lists (Keyed.put o.label o.offset entries) := by
  obtain ⟨stream, hstream, hrows⟩ := hc.commits.puts_offset hs
  rw [hc.origin.1, hname] at hstream
  cases hstream
  have hlabel : o.label = name := by rw [BatchOrigin.label, hc.origin.1, hname, Value.toWritten_text]
  refine ⟨hlabel, ?_, Keyed.nodup_keys_put h.2 _ _⟩
  rw [hrows, h.1, Store.putOffset_map h.2, hlabel]

/-- A committed batch moves offset and gauge, counts its rows, and is the last of its stream. -/
theorem Mirrored.committed (h : Mirrored l log) {s : Settled} (hb : a.Begun l o s) {rows : List (String × Nat)}
    (hr : s.result = .ok rows) (ha : a.Plain) {chunks : List Chunk}
    (hc : a.Committed o chunks l.store (a.carryOut l).2.store) (hsmall : Binary64.roundInt o.offset = o.offset) :
    Mirrored (a.carryOut l).2 (log ++ [(a, (a.carryOut l).1)]) := by
  have hresult : (a.carryOut l).1 = .ok (.rows (Ledger.total rows)) := by
    rw [hb.result, Ledger.batchAnswer, hr]
    rfl
  obtain ⟨rs, hrs, hnodup, hcount⟩ := Settled.rowsWritten_of_ok (hb.settled ▸ hr)
  have hrows (table : String) : (Keyed.get? table rows).getD 0 = (a.rowsFor table).length := by
    rw [hcount, rowsFor, Write.sources_eq hrs, ← ha.builtin]
    rfl
  obtain ⟨name, hname⟩ := ha.named
  have hlists := (lists_of_committed h.offsets h.sound hc hname).2
  have hsound := hc.commits.sound h.sound
  have hmetrics := Ledger.batchMetrics_ok hr l.metrics o
  rw [hb.ledger] at hlists hsound ⊢
  rw [hresult, hmetrics]
  refine ⟨hsound, by rw [hsmall]; exact hlists, fun table => ?_, ?_, fun stream => ?_⟩
  · simp only [Keyed.get?_addAll table hnodup, h.rows, hrows, brought_concat]
    rfl
  · simp only [Ledger.total_addAll, h.total, told_concat]
    rfl
  · simp only
    rw [Keyed.get?_put, h.status, lastOutcome_of_begins stream rfl hb.begins]
    rfl

/-- An offset that is set moves the gauge of its stream, and nothing else. -/
theorem Mirrored.moved (h : Mirrored l log) (hm : a.Moved l o) (ha : a.Plain) {chunks : List Chunk}
    (hc : a.Committed o chunks l.store (a.carryOut l).2.store) (hsmall : Binary64.roundInt o.offset = o.offset) :
    Mirrored (a.carryOut l).2 (log ++ [(a, (a.carryOut l).1)]) := by
  obtain ⟨name, hname⟩ := ha.named
  have hlists := (lists_of_committed h.offsets h.sound hc hname).2
  have hnone (table : String) : a.rowsFor table = [] := by
    rw [rowsFor, Write.sources, hm.unfilled]
    rfl
  refine ⟨hc.commits.sound h.sound, ?_, fun table => ?_, ?_, fun stream => ?_⟩
  · rw [hm.metrics, Metrics.setOffset, hsmall]
    exact hlists
  · rw [hm.metrics, brought_concat, hnone, List.length_nil, ite_self]
    exact h.rows table
  · rw [hm.metrics, told_concat, hm.result]
    exact h.total
  · rw [hm.metrics, lastOutcome_of_not_begins stream (.inr hm.begins)]
    exact h.status stream

theorem Mirrored.step (h : Mirrored l log) (ha : a.Plain) (hsmall : ∀ n, a.write.offset = .int n → n ≤ Binary64.powerOfTwo 53) :
    Mirrored (a.carryOut l).2 (log ++ [(a, (a.carryOut l).1)]) := by
  have hround {o : BatchOrigin} (ho : Ledger.checkArguments a.write.stream a.write.offset = .ok o) :
      Binary64.roundInt o.offset = o.offset := by
    obtain ⟨-, -, hoffset, hpositive⟩ := Ledger.checkArguments_ok ho
    have hle := hsmall _ hoffset
    apply Binary64.roundInt_of_le
    omega
  rcases a.metered_cases l with ⟨hbegins, ⟨f, hf⟩, hl⟩ | ⟨o, s, hb⟩ | ⟨o, hm⟩
  · exact h.refused hbegins hf hl
  · rcases committed_cases ha.builtin l with ⟨f, hf, hs⟩ | ⟨o', chunks, hok, hc⟩
    · cases hr : s.result with
      | error g => exact h.failed hb hr hs
      | ok rows =>
        rw [hb.result, Ledger.batchAnswer, hr] at hf
        cases hf
    · cases hr : s.result with
      | error g =>
        rw [hb.result, Ledger.batchAnswer, hr] at hok
        cases hok
      | ok rows =>
        obtain rfl : o' = o := Except.ok.inj (hc.checked.symm.trans hb.checked)
        exact h.committed hb hr ha hc (hround hb.checked)
  · rcases committed_cases ha.builtin l with ⟨f, hf, -⟩ | ⟨o', chunks, -, hc⟩
    · rw [hm.result] at hf
      cases hf
    · obtain rfl : o' = o := Except.ok.inj (hc.checked.symm.trans hm.checked)
      exact h.moved hm ha hc (hround hm.checked)

theorem mirrored_run {calls : List Attempt} (h : Mirrored l log) (hp : ∀ a ∈ calls, a.Plain)
    (hsmall : ∀ a ∈ calls, ∀ n, a.write.offset = .int n → n ≤ Binary64.powerOfTwo 53) :
    Mirrored (run l calls).2 (log ++ calls.zip (run l calls).1) := by
  induction calls generalizing l log with
  | nil => rwa [List.zip_nil_left, List.append_nil]
  | cons a rest ih =>
    obtain ⟨ha, hrest⟩ := List.forall_mem_cons.1 hp
    obtain ⟨hn, hlater⟩ := List.forall_mem_cons.1 hsmall
    rw [results_cons, List.zip_cons_cons, List.append_cons]
    exact ih (h.step ha hn) hrest hlater

/-- The calls of a run that return are those whose results are answers. -/
theorem map_fst_filter_isOk (l : Ledger) (calls : List Attempt) :
    ((calls.zip (run l calls).1).filter (·.2.isOk)).map (·.1) = returning l calls := by
  induction calls generalizing l with
  | nil => rfl
  | cons a rest ih =>
    rw [results_cons, List.zip_cons_cons, List.filter_cons, returning]
    simp only
    split
    · rw [List.map_cons, ih]
    · exact ih _

/-- After any run of calls on named streams with offsets that a double holds, the gauges show exactly the stored
offsets, each counter of rows the rows that committed batches brought for its table, and the counters together what the
callers were told of. The status of a stream is how its last batch came out that was begun and not interrupted. -/
theorem metrics_mirror_the_store (calls : List Attempt) (hp : ∀ a ∈ calls, a.Plain)
    (hsmall : ∀ a ∈ calls, ∀ n, a.write.offset = .int n → n ≤ Binary64.powerOfTwo 53) :
    let l := (run .fresh calls).2
    let log := calls.zip (run .fresh calls).1
    (∀ stream, l.getOffset [] (.text stream) = .ok (Keyed.get? stream l.metrics.committedOffset)) ∧
      (∀ table, (Keyed.get? table l.metrics.rowsWritten).getD 0 =
        ((returning .fresh calls).flatMap (·.rowsFor table)).length) ∧
      Ledger.total l.metrics.rowsWritten = told log ∧
      ∀ stream, Keyed.get? stream l.metrics.status = lastOutcome stream (log.filter (!interrupted ·.2)) := by
  intro l log
  have h := mirrored_run mirrored_fresh hp hsmall
  rw [List.nil_append] at h
  refine ⟨Ledger.getOffset_of_lists h.offsets, fun table => ?_, h.total, h.status⟩
  rw [h.rows, brought, ← map_fst_filter_isOk, List.flatMap_map]

/-- A batch that is committed, one whose source fails, and an offset that is set. -/
theorem failed_batch_shows_in_the_status :
    let calls := [Write.ingest (.text "s") [.ok (.sentiment (.int 50)), .ok ⟨"nowhere", []⟩] (.int 1),
      .submit 2 ⟨.text "s", [], .int 2⟩, .ingest (.text "s") [.error (.raised .value "decoder crashed")] (.int 3),
      .setOffset (.text "r") (.int 7)].map (Attempt.mk Registry.schema? 1 false [] [])
    let l := (run .fresh calls).2
    (∀ a ∈ calls, a.Plain) ∧ (∀ a ∈ calls, ∀ n, a.write.offset = .int n → n ≤ Binary64.powerOfTwo 53) ∧
      l.getOffset [] (.text "s") = .ok (some 2) ∧ l.getOffset [] (.text "r") = .ok (some 7) ∧
      (Keyed.get? "fear_greed_index" l.metrics.rowsWritten).getD 0 = 1 ∧ Ledger.total l.metrics.rowsWritten = 1 ∧
      Keyed.get? "s" l.metrics.status = some false ∧ Keyed.get? "r" l.metrics.status = none := by
  intro calls l
  have hp : ∀ a ∈ calls, a.Plain := by
    simp only [calls, List.map_cons, List.map_nil, List.forall_mem_cons]
    exact ⟨⟨rfl, _, rfl⟩, ⟨rfl, _, rfl⟩, ⟨rfl, _, rfl⟩, ⟨rfl, _, rfl⟩, by simp⟩
  have hsmall : ∀ a ∈ calls, ∀ n, a.write.offset = .int n → n ≤ Binary64.powerOfTwo 53 := by
    simp only [calls, List.map_cons, List.map_nil, List.forall_mem_cons, Write.offset, Value.int.injEq]
    refine ⟨?_, ?_, ?_, ?_, by simp⟩ <;> rintro n rfl <;> decide
  obtain ⟨hoffsets, hrows, htotal, hstatus⟩ := metrics_mirror_the_store calls hp hsmall
  refine ⟨hp, hsmall, (hoffsets "s").trans (congrArg Except.ok ?_), (hoffsets "r").trans (congrArg Except.ok ?_),
    (hrows "fear_greed_index").trans ?_, htotal.trans ?_, (hstatus "s").trans ?_, (hstatus "r").trans ?_⟩
  · decide +kernel
  · decide +kernel
  · decide +kernel
  · decide +kernel
  · decide +kernel
  · decide +kernel

/-- The batch that is interrupted is rolled back, and the status of its stream stays that of the batch before. -/
theorem interrupt_leaves_the_status :
    ¬ ∀ calls : List Attempt, (∀ a ∈ calls, a.Plain) →
      (∀ a ∈ calls, ∀ n, a.write.offset = .int n → n ≤ Binary64.powerOfTwo 53) →
      ∀ stream, Keyed.get? stream (run .fresh calls).2.metrics.status =
        lastOutcome stream (calls.zip (run .fresh calls).1) := by
  intro h
  let calls := [Write.ingest (.text "s") [] (.int 1),
    .ingest (.text "s") [.error (.raised .interrupt "decoder crashed")] (.int 2)].map
      (Attempt.mk Registry.schema? 1 false [] [])
  have hp : ∀ a ∈ calls, a.Plain := by
    simp only [calls, List.map_cons, List.map_nil, List.forall_mem_cons]
    exact ⟨⟨rfl, _, rfl⟩, ⟨rfl, _, rfl⟩, by simp⟩
  have hsmall : ∀ a ∈ calls, ∀ n, a.write.offset = .int n → n ≤ Binary64.powerOfTwo 53 := by
    simp only [calls, List.map_cons, List.map_nil, List.forall_mem_cons, Write.offset, Value.int.injEq]
    refine ⟨?_, ?_, by simp⟩ <;> rintro n rfl <;> decide
  exact absurd (h calls hp hsmall "s") (by decide +kernel)

end Attempt

end FeedLedger
