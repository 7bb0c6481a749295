import FeedLedger.Proofs.Holding
import FeedLedger.Proofs.Origin

/-!
Delivering streams at least once. Consumers ask where to resume a stream, submit a portion of it from there and start
anew at any time, while lookups and batches fail as they will. A portion that comes again cut otherwise can find its
ingest keys taken by rows of other messages; then a portion with the same end was committed before, by a consumer that
had been told to start behind messages that were all held, so the skipped rows are there already.
-/

namespace FeedLedger

namespace Delivery

/-- What happens next. A portion ends `more` messages behind the one it starts at. -/
inductive Round
  | look (stream : String) (outages : Outages)
  | submit (stream : String) (start more : Nat) (workers chunkSize : Int) (autocommitting : Bool) (outages : Outages)
  | restart

/-- The ledger, and the messages that consumers were told to resume streams at since they started. -/
structure Scene where
  ledger : Ledger
  told : List (String × Nat)

def portion (messages : Nat → Record) (start more : Nat) : List Record :=
  (List.range' start (more + 1)).map messages

/-- The message that a position is at. -/
def message? (p : ReplayPosition) : Option Nat :=
  match p.offset with
  | none => some 0
  | some (.int n) => some n.toNat
  | some _ => none

namespace Scene

def start : Scene := ⟨.fresh, []⟩

variable (messages : String → Nat → Record)

def look (scene : Scene) (stream : String) (outages : Outages) : Scene :=
  match (scene.ledger.resume outages (.text stream)).1.toOption.bind message? with
  | some n => { scene with told := (stream, n) :: scene.told }
  | none => scene

/-- Submits a portion with its last message as the offset. It starts where a consumer was told to. -/
def submit (scene : Scene) (stream : String) (start more : Nat) (workers chunkSize : Int) (autocommitting : Bool)
    (outages : Outages) : Scene :=
  if (stream, start) ∈ scene.told then
    let batch : Submission :=
      ⟨.text stream, (portion (messages stream) start more).map .ok, .int ((start + more : Nat) : Int)⟩
    { scene with ledger := (scene.ledger.submit (.builtin chunkSize autocommitting) outages workers [batch]).ledger }
  else scene

/-- The scene after a round. A consumer that starts anew has been told nothing. -/
def next (scene : Scene) : Round → Scene
  | .look stream outages => scene.look stream outages
  | .submit stream start more workers chunkSize autocommitting outages =>
    scene.submit messages stream start more workers chunkSize autocommitting outages
  | .restart => { scene with told := [] }

def run (rounds : List Round) : Scene := rounds.foldl (next messages) start

end Scene

/-- The bytes that are hashed for the ingest keys of a round. -/
def Round.hashed (messages : String → Nat → Record) : Round → List (List UInt8)
  | .submit stream start more _ _ _ _ =>
    let valid := Batch.validRecords Registry.schema? (portion (messages stream) start more)
    (Registry.schemas.filter (·.syntheticKey)).flatMap fun s =>
      (List.range (Batch.rowsOf s.table valid).length).map
        (IngestKey.bytes (IngestKey.batchName (.text stream) ((start + more : Nat) : Int)) s.table)
  | _ => []

/-- Different byte rows among some have different digests. -/
def CollisionFree (hashed : List (List UInt8)) : Prop :=
  ∀ x ∈ hashed, ∀ y ∈ hashed, Sha1.hex x = Sha1.hex y → x = y

instance (hashed : List (List UInt8)) : Decidable (CollisionFree hashed) :=
  inferInstanceAs (Decidable (∀ x ∈ hashed, ∀ y ∈ hashed, Sha1.hex x = Sha1.hex y → x = y))

/-- The valid ones among the first messages of a stream are held. -/
def Below (messages : Nat → Record) (n : Nat) (store : Store) : Prop :=
  ∀ i < n, ∀ v, (messages i).validate (Registry.schema? (messages i).table) = .ok v → store.Holds v

theorem Below.retained {messages : Nat → Record} {n : Nat} {before after : Store} (h : Below messages n before)
    (hr : before.Retains after) : Below messages n after := by
  intro i hi v hv
  have hvalid : v ∈ Batch.validRecords Registry.schema? [messages i] := Batch.mem_validRecords.2 ⟨_, by simp, hv⟩
  exact (h i hi v hv).retained (Batch.schema?_of_valid hvalid).1 hr

theorem mem_portion {messages : Nat → Record} {start more : Nat} {v : ValidRecord} :
    v ∈ Batch.validRecords Registry.schema? (portion messages start more) ↔
      ∃ i, start ≤ i ∧ i ≤ start + more ∧ (messages i).validate (Registry.schema? (messages i).table) = .ok v := by
  rw [Batch.mem_validRecords]
  constructor
  · rintro ⟨r, hr, hv⟩
    obtain ⟨i, hi, rfl⟩ := List.mem_map.1 hr
    obtain ⟨hle, hlt⟩ := List.mem_range'_1.1 hi
    exact ⟨i, hle, by omega, hv⟩
  · rintro ⟨i, hle, hlt, hv⟩
    exact ⟨_, List.mem_map_of_mem (List.mem_range'_1.2 ⟨hle, by omega⟩), hv⟩

variable {messages : String → Nat → Record} {hashed : List (List UInt8)}

/-- What holds in every scene: what is stored for a stream, what a consumer was told and what an ingest key names all
mean that the messages up to there are held. -/
structure Kept (messages : String → Nat → Record) (hashed : List (List UInt8)) (scene : Scene) : Prop where
  sound : scene.ledger.store.Sound
  offsets : ∀ stream cell, Keyed.get? stream scene.ledger.store.offsetEntries = some cell →
    ∃ n : Nat, cell = .integer n ∧ Below (messages stream) (n + 1) scene.ledger.store
  keys : ∀ table s, Registry.schema? table = some s → s.syntheticKey = true → ∀ r ∈ scene.ledger.store.rows table,
    ∃ (stream : String) (n place : Nat), IngestKey.bytes (IngestKey.batchName (.text stream) n) table place ∈ hashed ∧
      r.cell Schema.ingestKeyColumn =
        .text (IngestKey.key (IngestKey.batchName (.text stream) n) table (.int place)) ∧
      Below (messages stream) (n + 1) scene.ledger.store
  told : ∀ e ∈ scene.told, Below (messages e.1) e.2 scene.ledger.store

theorem kept_start : Kept messages hashed .start where
  sound := Store.sound_empty
  offsets := by
    intro stream cell h
    cases h
  keys := by
    intro table s _ _ r hr
    cases hr
  told := by
    intro e he
    cases he

theorem lookUp_of_getOffset {outages : Outages} {stream : Value} {l : Ledger} {found : Option Int}
    (h : l.getOffset outages stream = .ok found) : Ledger.lookUp stream l.store = .ok found := by
  have hread : l.readStore outages .get (Ledger.lookUp stream) = .ok found := by
    cases hread : l.readStore outages .get (Ledger.lookUp stream) with
    | error f =>
      rw [Ledger.getOffset, hread] at h
      cases h
    | ok found =>
      rw [Ledger.getOffset, hread] at h
      cases h
      rfl
  simp only [Ledger.readStore] at hread
  split at hread
  · cases hread
  · cases hread
  · cases hread
  · exact hread

theorem stored_of_getOffset {outages : Outages} {stream : String} {l : Ledger} {k : Int}
    (h : l.getOffset outages (.text stream) = .ok (some k)) :
    ∃ cell, Keyed.get? stream l.store.offsetEntries = some cell ∧ cell.toOffset = .ok k := by
  have hlookUp : (l.store.offset? stream).mapError Failure.storedOffset = .ok (some k) := lookUp_of_getOffset h
  simp only [Store.offset?] at hlookUp
  split at hlookUp
  · cases hlookUp
  rename_i cell hcell
  refine ⟨cell, hcell, ?_⟩
  cases hoffset : cell.toOffset with
  | error f =>
    rw [hoffset] at hlookUp
    cases hlookUp
  | ok n =>
    rw [hoffset] at hlookUp
    cases hlookUp
    rfl

theorem Kept.below_of_getOffset {scene : Scene} (h : Kept messages hashed scene) {outages : Outages} {stream : String}
    {k : Int} (hk : scene.ledger.getOffset outages (.text stream) = .ok (some k)) :
    ∃ n : Nat, k = n ∧ Below (messages stream) (n + 1) scene.ledger.store := by
  obtain ⟨cell, hcell, hoffset⟩ := stored_of_getOffset hk
  obtain ⟨n, rfl, hbelow⟩ := h.offsets stream cell hcell
  exact ⟨n, (Except.ok.inj hoffset).symm, hbelow⟩

theorem Kept.below_of_resume {scene : Scene} (h : Kept messages hashed scene) {outages : Outages} {stream : String}
    {n : Nat} (hn : (scene.ledger.resume outages (.text stream)).1.toOption.bind message? = some n) :
    Below (messages stream) n scene.ledger.store := by
  have hfirst : Below (messages stream) 0 scene.ledger.store := fun i hi => absurd hi (Nat.not_lt_zero i)
  simp only [Ledger.resume] at hn
  split at hn
  · split at hn
    · cases hn
    · cases hn
      exact hfirst
  · cases hn
    exact hfirst
  · rename_i k hk
    obtain ⟨m, rfl, hbelow⟩ := h.below_of_getOffset hk
    rw [ReplayPosition.at?_after (by omega)] at hn
    obtain rfl : m + 1 = n := Option.some.inj hn
    exact hbelow

theorem Kept.look {scene : Scene} (h : Kept messages hashed scene) (stream : String) (outages : Outages) :
    Kept messages hashed (scene.look stream outages) := by
  simp only [Scene.look]
  split
  · rename_i n hn
    refine ⟨h.sound, h.offsets, h.keys, fun e he => ?_⟩
    rcases List.mem_cons.1 he with rfl | he
    · exact h.below_of_resume hn
    · exact h.told e he
  · exact h

/-- A single batch leaves the store as it was, or it is committed. -/
theorem submit_cases (chunkSize : Int) (autocommitting : Bool) (outages : Outages) (workers : Int) (stream : String)
    (rs : List Record) (n : Nat) (l : Ledger) :
    (l.submit (.builtin chunkSize autocommitting) outages workers
        [⟨.text stream, rs.map .ok, .int n⟩]).ledger.store = l.store ∨
      ∃ chunks, Commits Registry.schema? ⟨.text stream, n⟩ rs chunks l.store
        (l.submit (.builtin chunkSize autocommitting) outages workers
          [⟨.text stream, rs.map .ok, .int n⟩]).ledger.store := by
  rcases Ledger.submit_single (.builtin chunkSize autocommitting) outages workers ⟨.text stream, rs.map .ok, .int n⟩ with
    ⟨f, hf⟩ | hturn
  · rw [(hf l).2]
    exact .inl rfl
  rw [(hturn l).2]
  rcases Ledger.takeTurn_cases (Coordinator.default_ne_autocommit chunkSize autocommitting) outages
    ⟨.text stream, rs.map .ok, .int n⟩ l [] with ⟨f, -, hs⟩ | ⟨o, rs', chunks, ho, hrs, -, hc⟩
  · exact .inl hs
  · obtain ⟨-, hstream, hoffset, -⟩ := Ledger.checkArguments_ok ho
    obtain ⟨s, m⟩ := o
    obtain rfl : s = .text stream := hstream
    cases hoffset
    obtain rfl : rs = rs' := (List.map_inj_right fun _ _ e => Except.ok.inj e).1 hrs
    exact .inr ⟨chunks, hc⟩

/-- An ingest key tells the stream, the last message of the portion and the place of the row. -/
theorem same_origin (hfree : CollisionFree hashed) {table : String} {s : Schema}
    (hknown : Registry.schema? table = some s) {a b : String} {n m place other : Nat}
    (ha : IngestKey.bytes (IngestKey.batchName (.text a) n) table place ∈ hashed)
    (hb : IngestKey.bytes (IngestKey.batchName (.text b) m) table other ∈ hashed)
    (hkeys : IngestKey.key (IngestKey.batchName (.text a) n) table (.int place) =
      IngestKey.key (IngestKey.batchName (.text b) m) table (.int other)) : a = b ∧ n = m ∧ place = other := by
  have hcolon := Registry.colon_notMem_table hknown
  rw [IngestKey.key_eq, IngestKey.key_eq] at hkeys
  obtain ⟨hstream, hlast, -, hplace⟩ := IngestKey.bytes_injective hcolon hcolon (hfree _ ha _ hb hkeys)
  exact ⟨hstream, hlast, hplace⟩

/-- The bytes that a portion has hashed are among others. -/
def HashedIn (messages : String → Nat → Record) (hashed : List (List UInt8)) (stream : String) (start more : Nat) : Prop :=
  ∀ table s, Registry.schema? table = some s → s.syntheticKey = true → ∀ place <
    (Batch.rowsOf table (Batch.validRecords Registry.schema? (portion (messages stream) start more))).length,
    IngestKey.bytes (IngestKey.batchName (.text stream) ((start + more : Nat) : Int)) table place ∈ hashed

variable {scene : Scene} {stream : String} {start more : Nat} {after : Store} {chunks : List Chunk}

/-- A committed portion is held. Where one of its keys is taken, a portion with the same end was committed before. -/
theorem Kept.holds_portion (h : Kept messages hashed scene) (hfree : CollisionFree hashed)
    (hin : HashedIn messages hashed stream start more)
    (hc : Commits Registry.schema? ⟨.text stream, ((start + more : Nat) : Int)⟩ (portion (messages stream) start more)
      chunks scene.ledger.store after) {v : ValidRecord}
    (hv : v ∈ Batch.validRecords Registry.schema? (portion (messages stream) start more)) : after.Holds v := by
  have hknown := (Batch.schema?_of_valid hv).1
  apply hc.holds h.sound hv
  intro hsynthetic
  constructor
  · intro i j hij hj hkeys
    have hi := hin _ _ hknown hsynthetic i (by omega)
    obtain ⟨-, -, hplace⟩ := same_origin hfree hknown hi (hin _ _ hknown hsynthetic j hj) hkeys
    omega
  · rintro ⟨r, hr, place, hplace, hcell⟩
    obtain ⟨a, n, other, hmem, hcell', hheld⟩ := h.keys _ _ hknown hsynthetic r hr
    obtain ⟨rfl, rfl, -⟩ := same_origin hfree hknown hmem (hin _ _ hknown hsynthetic place hplace)
      (Cell.text.inj (hcell'.symm.trans hcell))
    obtain ⟨i, -, hi, hvalid⟩ := mem_portion.1 hv
    exact hheld i (by omega) v hvalid

/-- A committed portion keeps what holds, if the messages in front of it are held. -/
theorem Kept.commit (h : Kept messages hashed scene) (hfree : CollisionFree hashed)
    (hbelow : Below (messages stream) start scene.ledger.store) (hin : HashedIn messages hashed stream start more)
    {ledger : Ledger}
    (hc : Commits Registry.schema? ⟨.text stream, ((start + more : Nat) : Int)⟩ (portion (messages stream) start more)
      chunks scene.ledger.store ledger.store) : Kept messages hashed ⟨ledger, scene.told⟩ := by
  obtain ⟨hsound, -, name, hname, hoffsets⟩ := hc.settled h.sound
  obtain rfl : stream = name := Cell.text.inj (Binding.cell.inj hname)
  have hretains := hc.retains h.sound
  have hall : Below (messages stream) (start + more + 1) ledger.store := by
    intro i hi v hv
    by_cases hstart : i < start
    · exact hbelow.retained hretains i hstart v hv
    · exact h.holds_portion hfree hin hc (mem_portion.2 ⟨i, by omega, by omega, hv⟩)
  constructor
  case sound => exact hsound
  case offsets =>
    intro other cell hcell
    rw [hoffsets] at hcell
    split at hcell
    · rename_i hsame
      subst hsame
      exact ⟨start + more, (Option.some.inj hcell).symm, hall⟩
    · obtain ⟨n, hn, hheld⟩ := h.offsets other cell hcell
      exact ⟨n, hn, hheld.retained hretains⟩
  case keys =>
    intro table s hknown hsynthetic r hr
    rcases hc.mem_rows h.sound hknown hsynthetic hr with hold | ⟨place, hplace, hcell⟩
    · obtain ⟨a, n, other, hmem, hcell, hheld⟩ := h.keys table s hknown hsynthetic r hold
      exact ⟨a, n, other, hmem, hcell, hheld.retained hretains⟩
    · exact ⟨stream, start + more, place, hin table s hknown hsynthetic place hplace, hcell, hall⟩
  case told => exact fun e he => (h.told e he).retained hretains

theorem hashedIn_submit (stream : String) (start more : Nat) (workers chunkSize : Int) (autocommitting : Bool)
    (outages : Outages)
    (hsub : Round.hashed messages (.submit stream start more workers chunkSize autocommitting outages) ⊆ hashed) :
    HashedIn messages hashed stream start more := by
  intro table s hknown hsynthetic place hplace
  have htable := Registry.schema?_table hknown
  subst htable
  apply hsub
  apply List.mem_flatMap.2
  refine ⟨s, List.mem_filter.2 ⟨Registry.mem_of_schema? hknown, hsynthetic⟩, ?_⟩
  exact List.mem_map_of_mem (List.mem_range.2 hplace)

theorem Kept.submit (h : Kept messages hashed scene) (hfree : CollisionFree hashed) (stream : String)
    (start more : Nat) (workers chunkSize : Int) (autocommitting : Bool) (outages : Outages)
    (hsub : Round.hashed messages (.submit stream start more workers chunkSize autocommitting outages) ⊆ hashed) :
    Kept messages hashed (scene.submit messages stream start more workers chunkSize autocommitting outages) := by
  unfold Scene.submit
  split
  · rename_i htold
    rcases submit_cases chunkSize autocommitting outages workers stream (portion (messages stream) start more)
      (start + more) scene.ledger with hsame | ⟨chunks, hc⟩
    · simp only
      constructor
      · simpa only [hsame] using h.sound
      · simpa only [hsame] using h.offsets
      · simpa only [hsame] using h.keys
      · simpa only [hsame] using h.told
    · have hin := hashedIn_submit stream start more workers chunkSize autocommitting outages hsub
      exact h.commit hfree (h.told _ htold) hin hc
  · exact h

theorem Kept.next (h : Kept messages hashed scene) (hfree : CollisionFree hashed) (round : Round)
    (hsub : round.hashed messages ⊆ hashed) : Kept messages hashed (scene.next messages round) := by
  cases round with
  | look stream outages => exact h.look stream outages
  | submit stream start more workers chunkSize autocommitting outages =>
    exact h.submit hfree stream start more workers chunkSize autocommitting outages hsub
  | restart => exact ⟨h.sound, h.offsets, h.keys, fun e he => absurd he List.not_mem_nil⟩

theorem kept_run (rounds : List Round) (hfree : CollisionFree (rounds.flatMap (·.hashed messages))) :
    Kept messages (rounds.flatMap (·.hashed messages)) (Scene.run messages rounds) := by
  have hfold : ∀ (later : List Round) (scene : Scene),
      Kept messages (rounds.flatMap (·.hashed messages)) scene → later ⊆ rounds →
        Kept messages (rounds.flatMap (·.hashed messages)) (later.foldl (Scene.next messages) scene) := by
    intro later
    induction later with
    | nil => exact fun scene h _ => h
    | cons round rest ih =>
      intro scene h hsub
      have hround : round.hashed messages ⊆ rounds.flatMap (·.hashed messages) :=
        fun x hx => List.mem_flatMap.2 ⟨round, hsub List.mem_cons_self, hx⟩
      have hrest : rest ⊆ rounds := fun x hx => hsub (List.mem_cons_of_mem _ hx)
      exact ih _ (h.next hfree round hround) hrest
  exact hfold rounds .start kept_start (List.Subset.refl _)

/-- Whatever consumers did and whatever failed on the way: once an offset is found for a stream, every valid message up
to it is held by the store, as long as the digests of no two ingest keys collide. -/
theorem no_message_is_lost (messages : String → Nat → Record) (rounds : List Round)
    (hfree : CollisionFree (rounds.flatMap (·.hashed messages))) (outages : Outages) (stream : String) (k : Int)
    (hk : (Scene.run messages rounds).ledger.getOffset outages (.text stream) = .ok (some k)) (i : Nat)
    (hi : (i : Int) ≤ k) (v : ValidRecord)
    (hv : (messages stream i).validate (Registry.schema? (messages stream i).table) = .ok v) :
    (Scene.run messages rounds).ledger.store.Holds v := by
  obtain ⟨n, rfl, hbelow⟩ := (kept_run rounds hfree).below_of_getOffset hk
  exact hbelow i (by omega) v hv

/-- Four messages, the third one malformed, submitted in two portions and after a lookup that fails in a single one. The
first two messages then have the ingest keys of the last portion, and are skipped. -/
theorem replay_loses_nothing :
    let messages (_ : String) (i : Nat) : Record := .liquidation (if i = 2 then .null else .int i)
    let rounds : List Round :=
      [.look "s" [], .submit "s" 0 0 0 1000 false [], .look "s" [], .submit "s" 1 2 2 1 false [], .restart,
        .look "s" [⟨.get, .database .operational⟩], .submit "s" 0 3 0 2 true []]
    let scene := Scene.run messages rounds
    CollisionFree (rounds.flatMap (·.hashed messages)) ∧
      (scene.ledger.store.rows "linear_all_liquidation").length = 4 ∧
      scene.ledger.getOffset [] (.text "s") = .ok (some 3) ∧ ((3 : Nat) : Int) ≤ 3 ∧
      ∃ v, (messages "s" 3).validate (Registry.schema? (messages "s" 3).table) = .ok v ∧ scene.ledger.store.Holds v := by
  intro messages rounds scene
  have hfree : CollisionFree (rounds.flatMap (·.hashed messages)) := by decide +kernel
  have hk : scene.ledger.getOffset [] (.text "s") = .ok (some 3) := eq_ok_of_toOption (by decide +kernel)
  have hvalid : ((messages "s" 3).validate (Registry.schema? (messages "s" 3).table)).toOption.isSome = true := by
    decide +kernel
  obtain ⟨v, hv⟩ := Option.isSome_iff_exists.1 hvalid
  have hv := eq_ok_of_toOption hv
  exact ⟨hfree, by decide +kernel, hk, by decide, v, hv, no_message_is_lost messages rounds hfree [] "s" 3 hk 3 (by decide) v hv⟩

end Delivery

end FeedLedger
