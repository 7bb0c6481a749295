import Mathlib.Data.List.Induction
import Mathlib.Data.List.Nodup
import Mathlib.Data.List.Pairwise
import FeedLedger.WorkerPool

namespace FeedLedger.WorkerPool

theorem ofStream_append (stream : String) (a b : List Job) :
    ofStream stream (a ++ b) = ofStream stream a ++ ofStream stream b :=
  List.filter_append ..

/-- The jobs in the order they are, or are to be, begun in their streams. -/
def lined (p : WorkerPool) : List Job := p.started ++ (p.queued ++ p.waiting)

/-- What holds of a pool whatever steps it has taken. -/
structure Orderly (p : WorkerPool) : Prop where
  numbered : ∀ job ∈ p.submitted, job.number < p.submitted.length
  submitted : p.submitted.Nodup
  order : ∀ stream, (ofStream stream p.lined).Sublist (ofStream stream p.submitted)
  alone : p.holding.Pairwise (·.stream ≠ ·.stream)
  queued : ∀ job ∈ p.queued, job ∈ p.holding
  begun : ∀ job ∈ p.running, job ∈ p.started
  running : p.running.Nodup

theorem orderly_idle (workers : Nat) : (idle workers).Orderly := by
  constructor <;> simp [idle, lined, ofStream]

/-- A step that keeps the jobs of each stream in line, or drops some of them, keeps the order. -/
theorem sublist_of_lined {p q : WorkerPool} (h : p.Orderly) (hs : q.submitted = p.submitted)
    (hl : ∀ stream, (ofStream stream q.lined).Sublist (ofStream stream p.lined)) :
    ∀ stream, (ofStream stream q.lined).Sublist (ofStream stream q.submitted) := by
  intro stream
  rw [hs]
  exact (hl stream).trans (h.order stream)

namespace Orderly

variable {p q : WorkerPool} {job : Job} {stream : String}

/-- No job is in line twice. -/
theorem lined_nodup (h : p.Orderly) : p.lined.Nodup := by
  rw [List.nodup_iff_count_le_one]
  intro job
  -- the order is known within each stream only, and all copies of a job are of one stream
  have hsub : (ofStream job.stream p.lined).Nodup :=
    (h.order job.stream).nodup (h.submitted.filter _)
  have hcount := List.nodup_iff_count_le_one.1 hsub job
  rwa [ofStream, List.count_filter (by simp)] at hcount

theorem not_started_of_queued (h : p.Orderly) (hq : job ∈ p.queued) : job ∉ p.started := fun hs =>
  (List.nodup_append.1 h.lined_nodup).2.2 job hs job (List.mem_append_left _ hq) rfl

theorem not_started_of_waiting (h : p.Orderly) (hw : job ∈ p.waiting) : job ∉ p.started := fun hs =>
  (List.nodup_append.1 h.lined_nodup).2.2 job hs job (List.mem_append_right _ hw) rfl

/-- Two jobs that have the turn have the turns of two streams. -/
theorem stream_ne_of_holding (h : p.Orderly) {a b : Job} (ha : a ∈ p.holding) (hb : b ∈ p.holding) (hne : a ≠ b) :
    a.stream ≠ b.stream := by
  have : Std.Symm fun a b : Job => a.stream ≠ b.stream := ⟨fun _ _ => Ne.symm⟩
  exact h.alone.forall ha hb hne

theorem holding_nodup (h : p.Orderly) : p.holding.Nodup :=
  h.alone.imp fun hne => ne_of_apply_ne _ hne

theorem queued_nodup (h : p.Orderly) : p.queued.Nodup :=
  (List.nodup_append.1 (List.nodup_append.1 h.lined_nodup).2.1).1

theorem submit (h : p.Orderly) (stream : String) : (p.submit stream).Orderly where
  numbered := by
    intro job hjob
    simp only [WorkerPool.submit, List.mem_append, List.mem_singleton, List.length_append,
      List.length_singleton] at hjob ⊢
    rcases hjob with hold | rfl
    · exact Nat.lt_succ_of_lt (h.numbered job hold)
    · exact Nat.lt_succ_self _
  submitted := by
    have hnew : (⟨p.submitted.length, stream⟩ : Job) ∉ p.submitted := fun hmem =>
      Nat.lt_irrefl _ (h.numbered _ hmem)
    simpa [WorkerPool.submit, List.nodup_append] using ⟨h.submitted, fun a ha hne => hnew (hne ▸ ha)⟩
  order := by
    intro other
    have hold := (h.order other).append_right (ofStream other [⟨p.submitted.length, stream⟩])
    simpa [WorkerPool.submit, lined, ofStream_append, List.append_assoc] using hold
  alone := h.alone
  queued := h.queued
  begun := h.begun
  running := h.running

/-- Moving the first waiting job of a stream to the queue leaves the line of every stream as it is. -/
theorem lined_grant {waiting : List Job} (hfind : waiting.find? (·.stream = stream) = some job)
    (queued : List Job) (other : String) :
    ofStream other (queued ++ [job] ++ waiting.erase job) = ofStream other (queued ++ waiting) := by
  obtain ⟨hjob, before, after, rfl, hbefore⟩ := List.find?_eq_some_iff_append.1 hfind
  have hfirst : ∀ j ∈ before, j.stream ≠ job.stream := by
    intro j hj heq
    have hne := hbefore j hj
    simp_all
  have hnot : job ∉ before := fun hmem => hfirst job hmem rfl
  rw [List.erase_append_right _ hnot, List.erase_cons_head]
  by_cases hother : job.stream = other
  · have hnone : before.filter (·.stream = other) = [] := by
      simpa [List.filter_eq_nil_iff, ← hother] using hfirst
    simp [ofStream, hnone, hother]
  · simp [ofStream, hother]

theorem grant (h : p.Orderly) (hstep : p.grant? stream = some q) : q.Orderly := by
  unfold grant? at hstep
  split at hstep
  case h_2 => cases hstep
  case h_1 job hfind =>
    split at hstep
    case isTrue => cases hstep
    case isFalse hfree =>
      cases hstep
      have hjob : job.stream = stream := by simpa using List.find?_some hfind
      refine ⟨h.numbered, h.submitted, sublist_of_lined h rfl fun other => ?_, ?_, ?_, h.begun, h.running⟩
      · simp only [lined]
        rw [ofStream_append, lined_grant hfind, ← ofStream_append]
      · refine List.pairwise_append.2 ⟨h.alone, List.pairwise_singleton .., ?_⟩
        simpa [isTaken, hjob] using hfree
      · intro j hj
        rcases List.mem_append.1 hj with hold | hnew
        · exact List.mem_append_left _ (h.queued j hold)
        · exact List.mem_append_right _ hnew

theorem start (h : p.Orderly) (hstep : p.start? = some q) : q.Orderly := by
  unfold start? at hstep
  split at hstep
  case h_2 => cases hstep
  case h_1 job rest hqueue =>
    split at hstep
    case isFalse => cases hstep
    case isTrue hfree =>
      cases hstep
      have hmem : job ∈ p.queued := hqueue ▸ List.mem_cons_self
      have hnew : job ∉ p.running := fun hrun => h.not_started_of_queued hmem (h.begun job hrun)
      refine ⟨h.numbered, h.submitted, sublist_of_lined h rfl fun other => ?_, h.alone, ?_, ?_, ?_⟩
      · simp [lined, hqueue]
      · exact fun j hj => h.queued j (hqueue ▸ List.mem_cons_of_mem _ hj)
      · intro j hj
        rcases List.mem_append.1 hj with hold | hjob
        · exact List.mem_append_left _ (h.begun j hold)
        · exact List.mem_append_right _ hjob
      · simpa [List.nodup_append] using ⟨h.running, fun a ha hne => hnew (hne ▸ ha)⟩

theorem finish (h : p.Orderly) (hstep : p.finish? job = some q) : q.Orderly := by
  unfold finish? at hstep
  split at hstep
  case isFalse => cases hstep
  case isTrue hrun =>
    cases hstep
    refine ⟨h.numbered, h.submitted, h.order, h.alone.sublist List.erase_sublist, ?_, ?_,
      h.running.erase job⟩
    · intro j hj
      have hne : j ≠ job := fun heq => h.not_started_of_queued (heq ▸ hj) (h.begun job hrun)
      exact (List.mem_erase_of_ne hne).2 (h.queued j hj)
    · exact fun j hj => h.begun j (List.mem_of_mem_erase hj)

theorem cancel (h : p.Orderly) (hstep : p.cancel? job = some q) : q.Orderly := by
  unfold cancel? at hstep
  split at hstep
  case isFalse => cases hstep
  case isTrue =>
    cases hstep
    refine ⟨h.numbered, h.submitted, sublist_of_lined h rfl fun other => ?_,
      h.alone.sublist List.erase_sublist, ?_, h.begun, h.running⟩
    · exact ((List.Sublist.refl _).append (List.erase_sublist.append List.erase_sublist)).filter _
    · intro j hj
      have hne : j ≠ job := fun heq => List.Nodup.not_mem_erase h.queued_nodup (heq ▸ hj)
      exact (List.mem_erase_of_ne hne).2 (h.queued j (List.mem_of_mem_erase hj))

theorem step (h : p.Orderly) {s : PoolStep} (hstep : p.step? s = some q) : q.Orderly := by
  cases s with
  | submit stream =>
    cases hstep
    exact h.submit stream
  | grant stream => exact h.grant hstep
  | start => exact h.start hstep
  | finish job => exact h.finish hstep
  | cancel job => exact h.cancel hstep

end Orderly

theorem orderly_run {p q : WorkerPool} {steps : List PoolStep} (h : p.Orderly)
    (hrun : p.run? steps = some q) : q.Orderly := by
  induction steps generalizing p with
  | nil =>
    cases hrun
    exact h
  | cons s rest ih =>
    obtain ⟨next, hstep, hrest⟩ := Option.bind_eq_some_iff.1 hrun
    exact ih (h.step hstep) hrest

/-- One of the steps cancels a job while it runs. -/
def CancelsRunning (p : WorkerPool) (steps : List PoolStep) (job : Job) : Prop :=
  ∃ first rest q, steps = first ++ .cancel job :: rest ∧ p.run? first = some q ∧ job ∈ q.running

theorem CancelsRunning.append {p : WorkerPool} {steps : List PoolStep} {job : Job}
    (h : p.CancelsRunning steps job) (more : List PoolStep) : p.CancelsRunning (steps ++ more) job := by
  obtain ⟨first, rest, q, rfl, hrun, hjob⟩ := h
  exact ⟨first, rest ++ more, q, by simp, hrun, hjob⟩

/-- A running job loses the turn of its stream only by being cancelled. -/
theorem Orderly.holding_step {p q : WorkerPool} (h : p.Orderly) {s : PoolStep} (hstep : p.step? s = some q)
    {job : Job} (hjob : job ∈ q.running) (hheld : job ∈ p.running → job ∈ p.holding) :
    job ∈ q.holding ∨ (s = .cancel job ∧ job ∈ p.running) := by
  cases s with
  | submit stream =>
    cases hstep
    exact .inl (hheld hjob)
  | grant stream =>
    simp only [step?, grant?] at hstep
    split at hstep
    case h_2 => cases hstep
    case h_1 =>
      split at hstep <;> cases hstep
      exact .inl (List.mem_append_left _ (hheld hjob))
  | start =>
    simp only [step?, start?] at hstep
    split at hstep
    case h_2 => cases hstep
    case h_1 next rest hqueue =>
      split at hstep <;> cases hstep
      rcases List.mem_append.1 hjob with hold | hnew
      · exact .inl (hheld hold)
      · have hnext : job = next := List.mem_singleton.1 hnew
        exact .inl (h.queued job (hqueue ▸ hnext ▸ List.mem_cons_self))
  | finish ended =>
    simp only [step?, finish?] at hstep
    split at hstep <;> cases hstep
    have hne : job ≠ ended := fun heq => List.Nodup.not_mem_erase h.running (heq ▸ hjob)
    exact .inl ((List.mem_erase_of_ne hne).2 (hheld (List.mem_of_mem_erase hjob)))
  | cancel given =>
    simp only [step?, cancel?] at hstep
    split at hstep <;> cases hstep
    by_cases heq : job = given
    · exact .inr ⟨heq ▸ rfl, hjob⟩
    · exact .inl ((List.mem_erase_of_ne heq).2 (hheld hjob))

theorem holding_or_cancelled {workers : Nat} {steps : List PoolStep} {p : WorkerPool}
    (hrun : (idle workers).run? steps = some p) {job : Job} (hjob : job ∈ p.running) :
    job ∈ p.holding ∨ (idle workers).CancelsRunning steps job := by
  -- from the last step backwards: either it cancels the job, or the job ran without the turn before
  induction steps using List.reverseRecOn generalizing p with
  | nil =>
    cases hrun
    cases hjob
  | append_singleton first s ih =>
    rw [run?_append] at hrun
    obtain ⟨q, hfirst, hlast⟩ := Option.bind_eq_some_iff.1 hrun
    have hstep : q.step? s = some p := by simpa [run?] using hlast
    by_cases hheld : job ∈ q.running → job ∈ q.holding
    · rcases (orderly_run (orderly_idle workers) hfirst).holding_step hstep hjob hheld with hin | ⟨rfl, hwas⟩
      · exact .inl hin
      · exact .inr ⟨first, [], q, rfl, hfirst, hwas⟩
    · obtain ⟨hwas, hnot⟩ := Classical.not_imp.1 hheld
      exact .inr (((ih hfirst hwas).resolve_left hnot).append [s])

/-- Whatever steps a pool takes, the jobs of each stream are begun in the order they were submitted, none of them
twice at a time. If two jobs of one stream run at once, one of them was cancelled while it ran; then the next one can be
begun beside it, as `runs_beside_a_cancelled_job` says. -/
theorem begun_in_order_and_alone_unless_cancelled (workers : Nat) (steps : List PoolStep) (p : WorkerPool)
    (hrun : (idle workers).run? steps = some p) :
    (∀ stream, (ofStream stream p.started).Sublist (ofStream stream p.submitted)) ∧
      p.running.Nodup ∧
      ∀ first ∈ p.running, ∀ second ∈ p.running, first.stream = second.stream → first ≠ second →
        (idle workers).CancelsRunning steps first ∨ (idle workers).CancelsRunning steps second := by
  have h := orderly_run (orderly_idle workers) hrun
  refine ⟨fun stream => ?_, h.running, fun first hfirst second hsecond hstream hne => ?_⟩
  · have hsub : (ofStream stream p.started).Sublist (ofStream stream p.lined) :=
      (List.sublist_append_left ..).filter _
    exact hsub.trans (h.order stream)
  · rcases holding_or_cancelled hrun hfirst with hin | hcancelled
    · rcases holding_or_cancelled hrun hsecond with hin' | hcancelled
      · exact absurd hstream (h.stream_ne_of_holding hin hin' hne)
      · exact .inr hcancelled
    · exact .inl hcancelled

/-- Two jobs of one stream; the first is cancelled while it runs. -/
def cancelsTheFirst : List PoolStep :=
  [.submit "s", .submit "s", .grant "s", .start, .cancel ⟨0, "s"⟩, .grant "s", .start]

theorem one_of_two_was_cancelled :
    (idle 2).CancelsRunning cancelsTheFirst ⟨0, "s"⟩ ∨ (idle 2).CancelsRunning cancelsTheFirst ⟨1, "s"⟩ :=
  (begun_in_order_and_alone_unless_cancelled 2 cancelsTheFirst
    ⟨2, [⟨0, "s"⟩, ⟨1, "s"⟩], [], [⟨1, "s"⟩], [], [⟨0, "s"⟩, ⟨1, "s"⟩], [⟨0, "s"⟩, ⟨1, "s"⟩]⟩ (by decide)).2.2
    ⟨0, "s"⟩ (by decide) ⟨1, "s"⟩ (by decide) rfl (by decide)

theorem two_of_a_stream_run_after_a_cancel :
    ¬ ∀ (workers : Nat) (steps : List PoolStep) (p : WorkerPool), (idle workers).run? steps = some p →
      p.running.Pairwise (·.stream ≠ ·.stream) ∧
        ∀ stream, (ofStream stream p.started).Sublist (ofStream stream p.submitted) := by
  intro h
  have hrun : (idle 2).run? cancelsTheFirst =
      some ⟨2, [⟨0, "s"⟩, ⟨1, "s"⟩], [], [⟨1, "s"⟩], [], [⟨0, "s"⟩, ⟨1, "s"⟩], [⟨0, "s"⟩, ⟨1, "s"⟩]⟩ := by decide
  exact absurd (h 2 cancelsTheFirst _ hrun).1 (by decide)

/-- Whenever a running job is cancelled that has the turn of its stream, the next one that waits for the turn can be
begun beside it. -/
theorem runs_beside_a_cancelled_job {p : WorkerPool} (h : p.Orderly) {job next : Job} (hrun : job ∈ p.running)
    (hheld : job ∈ p.holding) (hnext : p.waiting.find? (·.stream = job.stream) = some next)
    (hqueue : p.queued = []) (hfree : p.running.length < p.workers) :
    ∃ q, p.run? [.cancel job, .grant job.stream, .start] = some q ∧ job ∈ q.running ∧ next ∈ q.running := by
  have hgone : job ∉ p.waiting := fun hmem =>
    h.not_started_of_waiting hmem (h.begun job hrun)
  have hturn : ¬ ∃ j, j ∈ p.holding.erase job ∧ j.stream = job.stream := by
    rintro ⟨j, hj, hstream⟩
    have hne : j ≠ job := fun heq => List.Nodup.not_mem_erase h.holding_nodup (heq ▸ hj)
    exact h.stream_ne_of_holding (List.mem_of_mem_erase hj) hheld hne hstream
  refine ⟨⟨p.workers, p.submitted, p.waiting.erase next, p.holding.erase job ++ [next], [], p.running ++ [next],
    p.started ++ [next]⟩, ?_, List.mem_append_left _ hrun, List.mem_append_right _ List.mem_cons_self⟩
  simp [run?, step?, cancel?, grant?, start?, isTaken, hheld, List.erase_of_not_mem hgone, hnext, hturn, hqueue,
    hfree]

end FeedLedger.WorkerPool
