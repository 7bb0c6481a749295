import FeedLedger.Proofs.Answers
import FeedLedger.Proofs.Appending
import FeedLedger.Proofs.LastOffset
import FeedLedger.Proofs.Redelivery

/-!
Streams that are taken in side by side. Whichever stream's turn it is, each call is answered the same, each stream ends
at the same offset, tables with natural keys hold the same keys, and tables without hold the same rows: where an ingest
key comes up more than once, it comes from one stream alone, whose calls stay in order.
-/

namespace FeedLedger

namespace Table

/-- The cells of a row without its number and the times that the store sets. -/
def bare (t : Table) (r : Row) : List Cell := (t.columns.filter (·.filling = .null)).map fun c => r.cell c.name

end Table

namespace Schema

variable {s : Schema} {t : Table} {conflict : Conflict} {history : List (List (String × Cell))} {rows : List Row}

theorem Fits.bare_row (h : s.Fits t conflict) (given : List (String × Cell)) (n m : Int) :
    t.bare (t.row given n) = t.bare (t.row given m) := by
  apply List.map_congr_left
  intro c hc
  obtain ⟨hmem, hfilling⟩ := List.mem_filter.1 hc
  have hcolumn := Table.column?_of_mem h.columns hmem
  rw [Table.cell_row hcolumn, Table.cell_row hcolumn]
  apply h.fill_eq hmem
  intro hid
  rw [hid, h.number] at hcolumn
  rw [← Option.some.inj hcolumn] at hfilling
  simp [Column.id] at hfilling

theorem Tells.map_bare (hh : s.Tells t history rows) (h : s.Fits t conflict) :
    rows.map t.bare = (s.policy.kept s.keyOf history).map fun given => t.bare (t.row given 1) := by
  rw [hh.rows_eq, content]
  apply List.ext_getElem?
  intro i
  rw [List.getElem?_map, List.getElem?_mapIdx, List.getElem?_map, Option.map_map]
  apply Option.map_congr
  intro given _
  exact h.bare_row given _ _

end Schema

/-- A store whose offsets are integers. -/
def Store.Positioned (store : Store) : Prop :=
  ∀ stream cell, Keyed.get? stream store.offsetEntries = some cell → ∃ n, cell = .integer n

theorem Store.positioned_empty : empty.Positioned := by
  intro stream cell h
  cases h

theorem Commits.positioned {o : BatchOrigin} {rs : List Record} {chunks : List Chunk} {before after : Store}
    (h : Commits Registry.schema? o rs chunks before after) (hs : before.Sound) (hp : before.Positioned) :
    after.Positioned := by
  obtain ⟨-, -, name, -, hentries⟩ := h.settled hs
  intro stream cell hcell
  rw [hentries] at hcell
  split at hcell
  · cases hcell
    exact ⟨o.offset, rfl⟩
  · exact hp stream cell hcell

/-- A stream with the same entry in two stores is found at the same offset. -/
theorem Ledger.getOffset_of_same {l m : Ledger} (hp : l.store.Positioned) {stream : String}
    (h : Keyed.get? stream l.store.offsetEntries = Keyed.get? stream m.store.offsetEntries) :
    ∃ found, l.getOffset [] (.text stream) = .ok found ∧ m.getOffset [] (.text stream) = .ok found := by
  cases hl : Keyed.get? stream l.store.offsetEntries with
  | none =>
    have hm := h.symm.trans hl
    refine ⟨none, getOffset_of_offset? ?_, getOffset_of_offset? ?_⟩
    · simp only [Store.offset?, hl]
    · simp only [Store.offset?, hm]
  | some cell =>
    obtain ⟨n, rfl⟩ := hp stream cell hl
    have hm := h.symm.trans hl
    refine ⟨some n, getOffset_of_offset? ?_, getOffset_of_offset? ?_⟩
    · simp only [Store.offset?, hl]
      rfl
    · simp only [Store.offset?, hm]
      rfl

theorem Delivery.CollisionFree.mono {some all : List (List UInt8)} (h : CollisionFree all) (hs : some ⊆ all) :
    CollisionFree some :=
  fun x hx y hy => h x (hs hx) y (hs hy)

/-- What is looked for is found among the lists of some items alone, if none of the others has it in its list. -/
theorem find?_flatMap_filter {α β : Type} {f : α → List β} {q : β → Bool} {p : α → Bool} {items : List α}
    (h : ∀ a ∈ items, p a = false → ∀ b ∈ f a, q b = false) :
    (items.flatMap f).find? q = ((items.filter p).flatMap f).find? q := by
  induction items with
  | nil => rfl
  | cons a rest ih =>
    obtain ⟨hfirst, hlater⟩ := List.forall_mem_cons.1 h
    rw [List.flatMap_cons, List.find?_append, ih hlater]
    cases hp : p a with
    | true => rw [List.filter_cons_of_pos hp, List.flatMap_cons, List.find?_append]
    | false =>
      have hnone : (f a).find? q = none := by
        rw [List.find?_eq_none]
        intro b hb
        simp [hfirst hp b hb]
      rw [hnone, Option.none_or, List.filter_cons_of_neg (by simp [hp])]

namespace Attempt

/-- Calls that take in the queue of each stream in its order, the streams in any. -/
structure Interleaves (queues : String → List Attempt) (calls : List Attempt) : Prop where
  texts : ∀ a ∈ calls, ∃ name, a.write.stream = .text name
  queued : ∀ name, calls.filter (·.write.Names name) = queues name

/-- What the calls of a run that name a stream are answered, in their order. -/
def answersTo (name : String) (l : Ledger) (calls : List Attempt) : List (Except Failure Answer) :=
  ((calls.zip (run l calls).1).filter (·.1.write.Names name)).map (·.2)

/-- The cells of the rows that a call brings for the table of a schema. -/
def cellsFor (s : Schema) (t : Table) (a : Attempt) : List (List (String × Cell)) :=
  match Ledger.checkArguments a.write.stream a.write.offset with
  | .ok o =>
    t.cellsOf (Batch.handed (IngestKey.batchName o.stream o.offset) s.table
      (Batch.validRecords Registry.schema? a.write.sources))
  | .error _ => []

variable {queues : String → List Attempt} {first second calls : List Attempt} {a b : Attempt} {l m : Ledger}
  {s : Schema} {t : Table} {conflict : Conflict} {given other : List (String × Cell)}

namespace Interleaves

theorem mem_iff (h : Interleaves queues calls) : a ∈ calls ↔ ∃ name, a ∈ queues name := by
  constructor
  · intro ha
    obtain ⟨name, hname⟩ := h.texts a ha
    refine ⟨name, ?_⟩
    rw [← h.queued, List.mem_filter]
    exact ⟨ha, decide_eq_true ((Write.names_iff hname name).2 rfl)⟩
  · rintro ⟨name, ha⟩
    rw [← h.queued] at ha
    exact (List.mem_filter.1 ha).1

theorem same_calls (h : Interleaves queues first) (h' : Interleaves queues second) : a ∈ first ↔ a ∈ second := by
  rw [h.mem_iff, h'.mem_iff]

/-- Calls that are left out of the queues are left out of what takes them in. -/
theorem filter (h : Interleaves queues calls) (p : Attempt → Bool) :
    Interleaves (fun name => (queues name).filter p) (calls.filter p) := by
  constructor
  case texts =>
    intro a ha
    exact h.texts a (List.mem_filter.1 ha).1
  case queued =>
    intro name
    rw [← h.queued, List.filter_comm]

end Interleaves

theorem answersTo_eq (hp : ∀ a ∈ calls, a.Plain) (hl : l.store.Sound) (name : String) :
    answersTo name l calls = (calls.filter (·.write.Names name)).map fun a => (a.carryOut l).1 := by
  rw [answersTo, results_eq_map hp hl hl]
  induction calls with
  | nil => rfl
  | cons a rest ih =>
    obtain ⟨-, hrest⟩ := List.forall_mem_cons.1 hp
    rw [List.map_cons, List.zip_cons_cons]
    by_cases hn : a.write.Names name
    · rw [List.filter_cons_of_pos (by simpa using hn), List.filter_cons_of_pos (by simpa using hn), List.map_cons,
        List.map_cons, ih hrest]
    · rw [List.filter_cons_of_neg (by simpa using hn), List.filter_cons_of_neg (by simpa using hn), ih hrest]

/-- A call moves its stream to its offset if it returns, and no other stream. -/
theorem offset_cases (hb : a.schemas = Registry.schema?) (hl : l.store.Sound) :
    (∃ f, (a.carryOut l).1 = .error f ∧ (a.carryOut l).2.store = l.store) ∨
      ∃ answer n, (a.carryOut l).1 = .ok answer ∧ a.write.offset = .int n ∧ ∀ name,
        Keyed.get? name (a.carryOut l).2.store.offsetEntries =
          if a.write.Names name then some (.integer n) else Keyed.get? name l.store.offsetEntries := by
  rcases committed_cases hb l with hfail | ⟨o, chunks, hok, hc⟩
  · exact .inl hfail
  · obtain ⟨hstream, hoffset, -⟩ := hc.origin
    obtain ⟨-, -, stream, hname, hentries⟩ := hc.commits.settled hl
    right
    refine ⟨_, o.offset, hok, hoffset, ?_⟩
    intro name
    rw [hstream] at hname
    rw [hentries]
    simp only [Write.names_iff_of_forText hname, eq_comm]

/-- A stream ends where its own calls alone would have led it. -/
theorem offset_of_own_calls (hp : ∀ a ∈ calls, a.Plain) (hl : l.store.Sound) (hm : m.store.Sound) {name : String}
    (hsame : Keyed.get? name l.store.offsetEntries = Keyed.get? name m.store.offsetEntries) :
    Keyed.get? name (run l calls).2.store.offsetEntries =
      Keyed.get? name (run m (calls.filter (·.write.Names name))).2.store.offsetEntries := by
  induction calls generalizing l m with
  | nil => exact hsame
  | cons a rest ih =>
    obtain ⟨ha, hrest⟩ := List.forall_mem_cons.1 hp
    have hl' := sound_carryOut ha.builtin hl
    have hm' := sound_carryOut ha.builtin hm
    have hanswer := ha.answer_eq hl hm
    have hrun : (run l (a :: rest)).2 = (run (a.carryOut l).2 rest).2 := rfl
    rw [hrun]
    -- the ledgers agree on this stream only, so other calls are carried out on the first one alone
    by_cases hn : a.write.Names name
    · rw [List.filter_cons_of_pos (by simpa using hn)]
      apply ih hrest hl' hm'
      rcases offset_cases ha.builtin hl with ⟨f, hf, hs⟩ | ⟨answer, n, hok, hoffset, hentries⟩
      · rcases offset_cases ha.builtin hm with ⟨-, -, hs'⟩ | ⟨answer, -, hok, -⟩
        · rw [hs, hs', hsame]
        · rw [← hanswer, hf] at hok
          cases hok
      · rcases offset_cases ha.builtin hm with ⟨f, hf, -⟩ | ⟨-, n', -, hoffset', hentries'⟩
        · rw [← hanswer, hok] at hf
          cases hf
        · rw [hoffset] at hoffset'
          cases hoffset'
          rw [hentries, hentries', if_pos hn, if_pos hn]
    · rw [List.filter_cons_of_neg (by simpa using hn)]
      apply ih hrest hl' hm
      rcases offset_cases ha.builtin hl with ⟨f, -, hs⟩ | ⟨answer, n, -, -, hentries⟩
      · rw [hs, hsame]
      · rw [hentries, if_neg hn, hsame]

/-- Offsets stay integers in a run. -/
theorem positioned_run (hb : ∀ a ∈ calls, a.schemas = Registry.schema?) (hl : Reached l) :
    (run l calls).2.store.Positioned := by
  have hkeeps (o : BatchOrigin) (rs : List Record) (chunks : List Chunk) (before after : Store)
      (hc : Commits Registry.schema? o rs chunks before after) (h : before.Sound ∧ before.Positioned) :
      after.Sound ∧ after.Positioned := ⟨hc.sound h.1, hc.positioned h.1 h.2⟩
  have hstart : l.store.Sound ∧ l.store.Positioned :=
    hl.holds (P := fun store => store.Sound ∧ store.Positioned) ⟨Store.sound_empty, Store.positioned_empty⟩ hkeeps
  have hrun := @run_keeps (fun store _ => store.Sound ∧ store.Positioned) calls hb
    (fun _ _ _ _ _ _ hc h => hkeeps _ _ _ _ _ hc.commits h) l [] hstart
  exact hrun.2

/-- A committed call adds the cells of its rows to the history of a table. -/
theorem Committed.tells {o : BatchOrigin} {chunks : List Chunk} {before after : Store}
    (hc : a.Committed o chunks before after) (hs : before.Sound) (e : Registry.Entry s.table s t conflict)
    {history : List (List (String × Cell))} (hh : s.Tells t history (before.rows s.table)) :
    s.Tells t (history ++ cellsFor s t a) (after.rows s.table) := by
  have hown : cellsFor s t a = t.cellsOf (Batch.handed (IngestKey.batchName o.stream o.offset) s.table
      (Batch.validRecords Registry.schema? a.write.sources)) := by
    rw [cellsFor, hc.checked]
  rw [hown]
  exact (hc.commits.tells hs e hh).1

/-- The rows of a table after a run, told from what was there before and the calls that return. -/
theorem tells_run (e : Registry.Entry s.table s t conflict) (hb : ∀ a ∈ calls, a.schemas = Registry.schema?)
    (hl : l.store.Sound) {history : List (List (String × Cell))} (hh : s.Tells t history (l.store.rows s.table)) :
    s.Tells t (history ++ (returning l calls).flatMap (cellsFor s t)) ((run l calls).2.store.rows s.table) := by
  have hstep (a : Attempt) (o : BatchOrigin) (chunks : List Chunk) (before after : Store) (done : List Attempt)
      (hc : a.Committed o chunks before after)
      (h : before.Sound ∧ s.Tells t (history ++ done.flatMap (cellsFor s t)) (before.rows s.table)) :
      after.Sound ∧ s.Tells t (history ++ (done ++ [a]).flatMap (cellsFor s t)) (after.rows s.table) := by
    rw [List.flatMap_append, List.flatMap_singleton, ← List.append_assoc]
    exact ⟨hc.commits.sound h.1, hc.tells h.1 e h.2⟩
  have hstart : l.store.Sound ∧ s.Tells t (history ++ [].flatMap (cellsFor s t)) (l.store.rows s.table) := by
    rw [List.flatMap_nil, List.append_nil]
    exact ⟨hl, hh⟩
  have hrun := run_keeps
    (P := fun store done => store.Sound ∧ s.Tells t (history ++ done.flatMap (cellsFor s t)) (store.rows s.table))
    hb hstep hstart
  rw [List.nil_append] at hrun
  exact hrun.2

/-- Rows without a natural key have the ingest keys of their places in their batches. -/
theorem key_of_mem_cellsFor (e : Registry.Entry s.table s t conflict) (hs : s.syntheticKey = true)
    (h : given ∈ cellsFor s t a) :
    ∃ o, Ledger.checkArguments a.write.stream a.write.offset = .ok o ∧ ∃ place < (a.rowsFor s.table).length,
      s.keyOf given = [.text (IngestKey.key (IngestKey.batchName o.stream o.offset) s.table (.int place))] := by
  simp only [cellsFor] at h
  split at h
  · rename_i o ho
    obtain ⟨p, hp, hsome⟩ := List.mem_filterMap.1 h
    have hcells := eq_ok_of_toOption hsome
    have htakes := Batch.takes_of_mem_handed e hp
    have hcarries := (htakes.carries_newRow e.fits hcells []).mono (Schema.ingestKey_subset hs)
    have hgives : s.Gives t given := by
      rcases htakes.cells_bound e.fits with ⟨-, he⟩ | ⟨-, _, he, -, hgives⟩
      · rw [hcells] at he
        cases he
      · rw [hcells] at he
        cases he
        exact hgives
    rw [Batch.handed_eq e.known] at hp
    obtain ⟨row, -, place, -, hplace, rfl⟩ := Writer.mem_paramsFrom hp
    rw [Nat.zero_add] at hplace
    have hcell := e.fits.cell_ingestKey hs (Schema.get?_ingestKey hs _ place row) hcarries
    rw [Table.newRow_eq] at hcell
    refine ⟨o, ho, place, hplace, ?_⟩
    rw [← e.fits.map_cell_row hgives, (e.fits.appends hs).2, List.map_singleton, hcell]
  · cases h

/-- Where digests do not collide, rows with the same ingest key come from calls on the same stream. -/
theorem same_stream (e : Registry.Entry s.table s t conflict) (hs : s.syntheticKey = true)
    (hfree : Delivery.CollisionFree (calls.flatMap (·.hashed)))
    (htexts : ∀ a ∈ calls, ∃ name, a.write.stream = .text name) (ha : a ∈ calls) (hb : b ∈ calls)
    (hgiven : given ∈ cellsFor s t a) (hother : other ∈ cellsFor s t b) (hkey : s.keyOf given = s.keyOf other) :
    a.write.stream = b.write.stream := by
  obtain ⟨o, ho, place, hplace, hk⟩ := key_of_mem_cellsFor e hs hgiven
  obtain ⟨o', ho', place', hplace', hk'⟩ := key_of_mem_cellsFor e hs hother
  obtain ⟨name, hname⟩ := htexts a ha
  obtain ⟨name', hname'⟩ := htexts b hb
  obtain ⟨n, rfl, -⟩ := origin_of_text ho hname
  obtain ⟨n', rfl, -⟩ := origin_of_text ho' hname'
  have hmem := List.mem_flatMap.2 ⟨a, ha, mem_hashed ho e.known hs hplace⟩
  have hmem' := List.mem_flatMap.2 ⟨b, hb, mem_hashed ho' e.known hs hplace'⟩
  rw [hk, hk', List.cons.injEq, Cell.text.injEq] at hkey
  obtain ⟨rfl, -, -⟩ := Delivery.same_origin hfree e.known hmem hmem' hkey.1
  rw [hname, hname']

/-- The first row with an ingest key is the first one of its stream, whichever streams were taken in between. -/
theorem Interleaves.find?_eq (h : Interleaves queues first) (h' : Interleaves queues second)
    (e : Registry.Entry s.table s t conflict) (hs : s.syntheticKey = true)
    (hfree : Delivery.CollisionFree (first.flatMap (·.hashed))) (key : List Cell) :
    (first.flatMap (cellsFor s t)).find? (s.keyOf · = key) =
      (second.flatMap (cellsFor s t)).find? (s.keyOf · = key) := by
  by_cases hany : ∃ a ∈ first, ∃ given ∈ cellsFor s t a, s.keyOf given = key
  · obtain ⟨a, ha, given, hgiven, rfl⟩ := hany
    obtain ⟨name, hname⟩ := h.texts a ha
    have hothers : ∀ b ∈ first, decide (b.write.Names name) = false → ∀ other ∈ cellsFor s t b,
        decide (s.keyOf other = s.keyOf given) = false := by
      intro b hb hn other hother
      apply decide_eq_false
      intro hkey
      have hstream := same_stream e hs hfree h.texts hb ha hother hgiven hkey
      have hnames : b.write.Names name := (Write.names_iff (hstream.trans hname) name).2 rfl
      exact of_decide_eq_false hn hnames
    have hothers' : ∀ b ∈ second, decide (b.write.Names name) = false → ∀ other ∈ cellsFor s t b,
        decide (s.keyOf other = s.keyOf given) = false := by
      intro b hb
      exact hothers b ((h.same_calls h').2 hb)
    -- the key comes from this stream alone, and its calls stand in one order in both
    rw [find?_flatMap_filter hothers, find?_flatMap_filter hothers', h.queued, h'.queued]
  · have hnone (calls : List Attempt) (hcalls : ∀ a ∈ calls, a ∈ first) :
        (calls.flatMap (cellsFor s t)).find? (s.keyOf · = key) = none := by
      rw [List.find?_eq_none]
      intro given hgiven hkey
      obtain ⟨a, ha, hmem⟩ := List.mem_flatMap.1 hgiven
      exact hany ⟨a, hcalls a ha, given, hmem, of_decide_eq_true hkey⟩
    rw [hnone first fun _ ha => ha, hnone second fun a ha => (h.same_calls h').2 ha]

/-- Without natural keys the same rows are held. -/
theorem Interleaves.bare_perm (h : Interleaves queues first) (h' : Interleaves queues second)
    (e : Registry.Entry s.table s t conflict) (hs : s.syntheticKey = true)
    (hfree : Delivery.CollisionFree (first.flatMap (·.hashed))) {history : List (List (String × Cell))}
    {rows rows' : List Row} (hh : s.Tells t (history ++ first.flatMap (cellsFor s t)) rows)
    (hh' : s.Tells t (history ++ second.flatMap (cellsFor s t)) rows') : (rows.map t.bare).Perm (rows'.map t.bare) := by
  rw [hh.map_bare e.fits, hh'.map_bare e.fits, (e.fits.appends hs).1]
  apply List.Perm.map
  apply ConflictPolicy.kept_perm
  intro key
  rw [ConflictPolicy.pick_ignore_append, ConflictPolicy.pick_ignore_append]
  exact congrArg _ (h.find?_eq h' e hs hfree key)

/-- With natural keys the same keys are held. -/
theorem Interleaves.keys_perm (h : Interleaves queues first) (h' : Interleaves queues second)
    (e : Registry.Entry s.table s t conflict) {history : List (List (String × Cell))} {rows rows' : List Row}
    (hh : s.Tells t (history ++ first.flatMap (cellsFor s t)) rows)
    (hh' : s.Tells t (history ++ second.flatMap (cellsFor s t)) rows') :
    (rows.map fun r => s.conflictKeys.map r.cell).Perm (rows'.map fun r => s.conflictKeys.map r.cell) := by
  rw [hh.keys e.fits, hh'.keys e.fits]
  apply ConflictPolicy.keys_perm
  intro given
  simp only [List.mem_append, List.mem_flatMap, h.same_calls h']

/-- However the calls of some streams are interleaved, from any ledger that is reached: each is answered the same, each
stream ends at the same offset, tables without natural keys hold the same rows apart from numbers and times, and the
others hold the same keys. The digests of no two ingest keys may collide. -/
theorem interleavings_agree {l : Ledger} (hl : Reached l) {queues : String → List Attempt} {first second : List Attempt}
    (hfirst : Interleaves queues first) (hsecond : Interleaves queues second)
    (hb : ∀ a ∈ first, a.schemas = Registry.schema?)
    (hfree : Delivery.CollisionFree (first.flatMap (·.hashed))) :
    let rows (calls : List Attempt) (s : Schema) := (run l calls).2.store.rows s.table
    (∀ name, answersTo name l first = answersTo name l second) ∧
      (∀ name, ∃ found, (run l first).2.getOffset [] (.text name) = .ok found ∧
        (run l second).2.getOffset [] (.text name) = .ok found) ∧
      ∀ s ∈ Registry.schemas, ∃ t, Catalog.table? s.table = some t ∧
        (s.syntheticKey = true → ((rows first s).map t.bare).Perm ((rows second s).map t.bare)) ∧
        (s.syntheticKey = false →
          ((rows first s).map fun r => s.conflictKeys.map r.cell).Perm
            ((rows second s).map fun r => s.conflictKeys.map r.cell)) := by
  intro rows
  have hplain : ∀ a ∈ first, a.Plain := fun a ha => ⟨hb a ha, hfirst.texts a ha⟩
  have hplain' : ∀ a ∈ second, a.Plain := fun a ha => hplain a ((hfirst.same_calls hsecond).2 ha)
  have hsound := hl.sound
  refine ⟨?_, ?_, ?_⟩
  · intro name
    rw [answersTo_eq hplain hsound, answersTo_eq hplain' hsound, hfirst.queued, hsecond.queued]
  · intro name
    have hown : Keyed.get? name (run l first).2.store.offsetEntries =
        Keyed.get? name (run l (queues name)).2.store.offsetEntries := by
      rw [← hfirst.queued]
      exact offset_of_own_calls hplain hsound hsound rfl
    have hown' : Keyed.get? name (run l second).2.store.offsetEntries =
        Keyed.get? name (run l (queues name)).2.store.offsetEntries := by
      rw [← hsecond.queued]
      exact offset_of_own_calls hplain' hsound hsound rfl
    exact Ledger.getOffset_of_same (positioned_run hb hl) (hown.trans hown'.symm)
  · intro s hs
    obtain ⟨t, conflict, e⟩ := Registry.entry_of_schema? (Registry.schema?_of_mem hs)
    obtain ⟨history, hh, -⟩ := hl.remembers.told _ s t conflict e
    have htells := tells_run e hb hsound hh
    have htells' := tells_run e (fun a ha => (hplain' a ha).builtin) hsound hh
    rw [returning_eq_filter hplain hsound hsound] at htells
    rw [returning_eq_filter hplain' hsound hsound] at htells'
    -- a call returns in both orders or in neither, so those that return are interleaved, too
    have hreturn := hfirst.filter fun a => (a.carryOut l).1.isOk
    have hreturn' := hsecond.filter fun a => (a.carryOut l).1.isOk
    refine ⟨t, e.listed, ?_, ?_⟩
    · intro hsynthetic
      apply hreturn.bare_perm hreturn' e hsynthetic _ htells htells'
      apply hfree.mono
      intro x hx
      obtain ⟨a, ha, hmem⟩ := List.mem_flatMap.1 hx
      exact List.mem_flatMap.2 ⟨a, (List.mem_filter.1 ha).1, hmem⟩
    · intro _
      exact hreturn.keys_perm hreturn' e htells htells'

/-- Two streams bring a score for the same time, so that the order decides which one is held. One of them brings another
liquidation under the offset that it has, which is skipped, and a batch of the other one fails. -/
theorem two_streams_agree :
    let call (write : Write) : Attempt := ⟨Registry.schema?, 1, false, [], [], write⟩
    let a := call (.ingest (.text "a") [.ok (.liquidation (.int 1)), .ok (.sentiment (.int 50))] (.int 1))
    let again := call (.ingest (.text "a") [.ok (.liquidation (.int 2))] (.int 1))
    let oversized := call (.ingest (.text "b") [.ok (.sentiment (.int 9223372036854775808))] (.int 3))
    let b := call (.submit 2 ⟨.text "b", [.ok (.liquidation (.int 3)), .ok (.sentiment (.int 60))], .int 2⟩)
    let first := [a, again, oversized, b]
    let second := [oversized, b, a, again]
    let queues (name : String) := first.filter (·.write.Names name)
    let rows (calls : List Attempt) (s : Schema) := (run .fresh calls).2.store.rows s.table
    Reached .fresh ∧ Interleaves queues first ∧ Interleaves queues second ∧
      (∀ a ∈ first, a.schemas = Registry.schema?) ∧ Delivery.CollisionFree (first.flatMap (·.hashed)) ∧
      answersTo "b" .fresh first = answersTo "b" .fresh second ∧
      (answersTo "b" .fresh first).map (·.isOk) = [false, true] ∧
      (rows first Registry.fearGreedIndex).map (·.cell "score") = [.integer 50] ∧
      (rows second Registry.fearGreedIndex).map (·.cell "score") = [.integer 60] ∧
      (rows first Registry.linearAllLiquidation).length = 2 ∧
      ∃ t, Catalog.table? Registry.linearAllLiquidation.table = some t ∧
        ((rows first Registry.linearAllLiquidation).map t.bare).Perm
          ((rows second Registry.linearAllLiquidation).map t.bare) := by
  intro call a again oversized b first second queues rows
  have hsame : ∀ x, x ∈ second → x ∈ first := by simp [first, second]
  have htexts : ∀ x ∈ first, ∃ name, x.write.stream = .text name := by
    simp [first, a, again, oversized, b, call, Write.stream]
  have hfirst : Interleaves queues first := ⟨htexts, fun _ => rfl⟩
  have hsecond : Interleaves queues second := by
    refine ⟨fun x hx => htexts x (hsame x hx), ?_⟩
    intro name
    have ha (h : "a" ≠ name) : [a, again].filter (·.write.Names name) = [] := by
      simp [a, again, call, Write.Names, Binding.forText, Write.stream, h]
    have hb (h : "b" ≠ name) : [oversized, b].filter (·.write.Names name) = [] := by
      simp [oversized, b, call, Write.Names, Binding.forText, Write.stream, h]
    change ([oversized, b] ++ [a, again]).filter (·.write.Names name) =
      ([a, again] ++ [oversized, b]).filter (·.write.Names name)
    rw [List.filter_append, List.filter_append]
    by_cases hname : "a" = name
    · subst hname
      rw [hb (by decide), List.nil_append, List.append_nil]
    · rw [ha hname, List.append_nil, List.nil_append]
  have hb : ∀ x ∈ first, x.schemas = Registry.schema? := by simp [first, a, again, oversized, b, call]
  have hfree : Delivery.CollisionFree (first.flatMap (·.hashed)) := by decide +kernel
  have hknown : Registry.linearAllLiquidation ∈ Registry.schemas := by decide +kernel
  obtain ⟨hanswers, -, htables⟩ := interleavings_agree .fresh hfirst hsecond hb hfree
  obtain ⟨t, ht, hrows, -⟩ := htables _ hknown
  exact ⟨.fresh, hfirst, hsecond, hb, hfree, hanswers "b", by decide +kernel, by decide +kernel, by decide +kernel,
    by decide +kernel, t, ht, hrows rfl⟩

end Attempt

end FeedLedger
