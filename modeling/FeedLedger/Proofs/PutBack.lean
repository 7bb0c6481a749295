import FeedLedger.Isolation
import Mathlib.Tactic.Common

namespace FeedLedger

namespace LinkCall

/-- The levels that calls set, in their order. -/
def levels : List LinkCall → List String
  | [] => []
  | setLevel level :: rest => level :: levels rest
  | askDriver :: rest | body :: rest => levels rest

theorem levels_append (first second : List LinkCall) : levels (first ++ second) = levels first ++ levels second := by
  induction first with
  | nil => rfl
  | cons c rest ih => cases c <;> simp [levels, ih]

end LinkCall

namespace Link

open LinkCall

variable {l : Link} {b : BodyEnd} {level : String} {f : Failure}

/-- No level is set for the connection. -/
def IsUnset (l : Link) : Prop := l.option = none ∨ l.option = some ""

/-- What a look-up of the level comes to: the level set for the connection, and if there is none whatever its driver
says, where the driver's own errors are faults of the database. -/
inductive Finds (l : Link) : Except Failure String → Prop
  | set {level : String} : l.option = some level → level ≠ "" → Finds l (.ok level)
  | reported {level : String} : l.IsUnset → l.report = .level level → Finds l (.ok level)
  | driverError : l.IsUnset → l.report = .driverError → Finds l (.error (.database .operational))
  | failed {f : Failure} : l.IsUnset → l.report = .failed f → Finds l (.error f)

theorem initialLevel_of_set (h : l.option = some level) (hne : level ≠ "") : l.initialLevel = ([], .ok level) := by
  rw [initialLevel, h]
  exact if_neg hne

theorem initialLevel_of_unset (h : l.IsUnset) : l.initialLevel = ([.askDriver], l.reported) := by
  rcases h with h | h
  · rw [initialLevel, h]
  · rw [initialLevel, h]
    exact if_pos rfl

theorem unset_or_set (l : Link) : l.IsUnset ∨ ∃ level, l.option = some level ∧ level ≠ "" := by
  cases h : l.option with
  | none => exact .inl (.inl h)
  | some level =>
    by_cases hempty : level = ""
    · exact .inl (.inr (hempty ▸ h))
    · exact .inr ⟨level, rfl, hempty⟩

theorem finds_iff {found : Except Failure String} : l.Finds found ↔ l.initialLevel.2 = found := by
  constructor
  · rintro (⟨h, hne⟩ | ⟨h, hr⟩ | ⟨h, hr⟩ | ⟨h, hr⟩)
    · rw [initialLevel_of_set h hne]
    all_goals rw [initialLevel_of_unset h, reported, hr]
  · rintro rfl
    rcases l.unset_or_set with h | ⟨level, h, hne⟩
    · rw [initialLevel_of_unset h, reported]
      cases hr : l.report with
      | level name => exact .reported h hr
      | driverError => exact .driverError h hr
      | failed f => exact .failed h hr
    · rw [initialLevel_of_set h hne]
      exact .set h hne

/-- Looking the level up asks the driver or nobody. -/
theorem calls_of_initialLevel (l : Link) :
    l.IsUnset ∧ l.initialLevel.1 = [.askDriver] ∨ ¬ l.IsUnset ∧ l.initialLevel.1 = [] := by
  rcases l.unset_or_set with h | ⟨level, h, hne⟩
  · exact .inl ⟨h, by rw [initialLevel_of_unset h]⟩
  · refine .inr ⟨?_, by rw [initialLevel_of_set h hne]⟩
    rintro (hnone | hempty)
    · cases h.symm.trans hnone
    · exact hne (Option.some.inj (h.symm.trans hempty))

theorem levels_initialLevel (l : Link) : levels l.initialLevel.1 = [] := by
  rcases l.calls_of_initialLevel with ⟨-, h⟩ | ⟨-, h⟩ <;> rw [h] <;> rfl

theorem body_notMem_initialLevel (l : Link) : .body ∉ l.initialLevel.1 := by
  rcases l.calls_of_initialLevel with ⟨-, h⟩ | ⟨-, h⟩ <;> rw [h] <;> decide

theorem askDriver_mem_initialLevel (l : Link) : .askDriver ∈ l.initialLevel.1 ↔ l.IsUnset := by
  rcases l.calls_of_initialLevel with ⟨hl, h⟩ | ⟨hl, h⟩ <;> rw [h] <;> simp [hl]

/-- The calls that take a connection found at a level out of autocommit. -/
def enter (l : Link) (level : String) : List LinkCall := if level = autocommit then [.setLevel l.default] else []

/-- The calls that put it back behind a body. -/
def leave (b : BodyEnd) (level : String) : List LinkCall :=
  if level = autocommit ∧ b.invalidates = false then [.setLevel level] else []

theorem manualCommit_of_error (h : l.Finds (.error f)) (b : BodyEnd) :
    l.manualCommit b = (l.initialLevel.1, some f) := by
  have hfound := finds_iff.1 h
  unfold manualCommit
  generalize l.initialLevel = looked at hfound ⊢
  obtain ⟨calls, found⟩ := looked
  cases hfound
  rfl

theorem manualCommit_of_ok (h : l.Finds (.ok level)) (b : BodyEnd) :
    l.manualCommit b = (l.initialLevel.1 ++ l.enter level ++ .body :: leave b level, b.failure) := by
  have hfound := finds_iff.1 h
  unfold manualCommit
  generalize l.initialLevel = looked at hfound ⊢
  obtain ⟨calls, found⟩ := looked
  cases hfound
  simp [enter, leave]

theorem askDriver_mem_manualCommit (l : Link) (b : BodyEnd) : .askDriver ∈ (l.manualCommit b).1 ↔ l.IsUnset := by
  cases hfound : l.initialLevel.2 with
  | error f =>
    rw [manualCommit_of_error (finds_iff.2 hfound)]
    exact l.askDriver_mem_initialLevel
  | ok level =>
    have henter : .askDriver ∉ l.enter level := by
      unfold enter
      split <;> simp
    have hleave : .askDriver ∉ leave b level := by
      unfold leave
      split <;> simp
    rw [manualCommit_of_ok (finds_iff.2 hfound), ← askDriver_mem_initialLevel]
    simp [henter, hleave]

/-- The calls ahead of a body and behind it, on a connection that is found at a level. A connection that commits by
itself is set to its default level and, unless the body leaves it unusable, back again. Any other is left alone. -/
structure Surrounds (l : Link) (b : BodyEnd) (level : String) (before after : List LinkCall) : Prop where
  once : .body ∉ before ∧ .body ∉ after
  switched : level = autocommit → levels before = [l.default]
  putBack : level = autocommit → b.invalidates = false → levels after = [autocommit]
  unusable : b.invalidates = true → after = []
  unswitched : level ≠ autocommit → levels before = [] ∧ levels after = []

theorem surrounds_leave (l : Link) (b : BodyEnd) (level : String) :
    l.Surrounds b level (l.initialLevel.1 ++ l.enter level) (leave b level) where
  once := by
    have henter : .body ∉ l.enter level := by
      unfold enter
      split <;> simp
    constructor
    · exact fun h => (List.mem_append.1 h).elim l.body_notMem_initialLevel henter
    · unfold leave
      split <;> simp
  switched := by
    rintro rfl
    rw [levels_append, levels_initialLevel]
    rfl
  putBack := by
    rintro rfl hb
    rw [leave, if_pos ⟨rfl, hb⟩]
    rfl
  unusable := by
    intro hb
    simp [leave, hb]
  unswitched := by
    intro hne
    rw [levels_append, levels_initialLevel, enter, if_neg hne, leave, if_neg fun h => hne h.1]
    exact ⟨rfl, rfl⟩

/-- The last level that is set is the one in force. -/
theorem levelAfter_eq (level : String) (calls : List LinkCall) :
    levelAfter level calls = (levels calls).getLast?.getD level := by
  induction calls generalizing level with
  | nil => rfl
  | cons c rest ih =>
    cases c with
    | setLevel next =>
      rw [levels, List.getLast?_cons, Option.getD_some]
      exact ih next
    | askDriver => exact ih level
    | body => exact ih level

theorem Surrounds.levelAfter_before {before after : List LinkCall} (h : l.Surrounds b level before after) :
    levelAfter level before = l.bodyLevel level := by
  rw [levelAfter_eq, bodyLevel]
  by_cases hauto : level = autocommit
  · rw [h.switched hauto, if_pos hauto]
    rfl
  · rw [(h.unswitched hauto).1, if_neg hauto]
    rfl

/-- Whatever is set ahead of the body, behind it the first level is set again or was never left. -/
theorem Surrounds.getLast?_levels {before after : List LinkCall} (h : l.Surrounds b level before after)
    (hb : b.invalidates = false) :
    (levels (before ++ .body :: after)).getLast? = if level = autocommit then some autocommit else none := by
  rw [levels_append, levels]
  split
  · rename_i hauto
    rw [h.putBack hauto hb, List.getLast?_concat]
  · rename_i hauto
    rw [(h.unswitched hauto).1, (h.unswitched hauto).2]
    rfl

theorem Surrounds.levelAfter {before after : List LinkCall} (h : l.Surrounds b level before after)
    (hb : b.invalidates = false) : levelAfter level (before ++ .body :: after) = level := by
  rw [levelAfter_eq, h.getLast?_levels hb]
  split
  · rename_i hauto
    exact hauto.symm
  · rfl

/-- The connection after calls: the last level that they set is found from then on. -/
def after (l : Link) (calls : List LinkCall) : Link := { l with option := (levels calls).getLast?.or l.option }

/-- The connection after bodies have been run on it, one after the other. -/
def usedFor (l : Link) : List BodyEnd → Link
  | [] => l
  | b :: rest => (l.after (l.manualCommit b).1).usedFor rest

theorem finds_after_manualCommit (hb : b.invalidates = false) {found : Except Failure String} (h : l.Finds found) :
    (l.after (l.manualCommit b).1).Finds found := by
  cases found with
  | error f =>
    rw [manualCommit_of_error h, after, levels_initialLevel]
    exact h
  | ok level =>
    rw [manualCommit_of_ok h, after, (l.surrounds_leave b level).getLast?_levels hb]
    -- a connection that was switched is found by the level set for it now, whoever told the level before
    split
    · rename_i hauto
      rw [hauto]
      exact .set rfl (by decide)
    · exact h

theorem finds_usedFor {bodies : List BodyEnd} (hbodies : ∀ b ∈ bodies, b.invalidates = false)
    {found : Except Failure String} (h : l.Finds found) : (l.usedFor bodies).Finds found := by
  induction bodies generalizing l with
  | nil => exact h
  | cons b rest ih =>
    obtain ⟨hb, hrest⟩ := List.forall_mem_cons.1 hbodies
    exact ih hrest (finds_after_manualCommit hb h)

/-- A body runs only if the level of its connection is found, and then once, and its failure comes out. A connection
that commits by itself is at its default level meanwhile. Unless the body leaves it unusable, the connection is back
at its level afterwards, and is found there however many bodies have been run on it. -/
theorem level_is_put_back (l : Link) (b : BodyEnd) :
    let calls := (l.manualCommit b).1
    let failure := (l.manualCommit b).2
    (∃ found, l.Finds found) ∧
    (.askDriver ∈ calls ↔ l.IsUnset) ∧
    (∀ f, l.Finds (.error f) → .body ∉ calls ∧ levels calls = [] ∧ failure = some f) ∧
    (∀ level, l.Finds (.ok level) → failure = b.failure ∧
      (∃ before after, calls = before ++ .body :: after ∧ l.Surrounds b level before after ∧
        levelAfter level before = l.bodyLevel level) ∧
      (b.invalidates = false → levelAfter level calls = level)) ∧
    ∀ bodies, (∀ b ∈ bodies, b.invalidates = false) → ∀ found, l.Finds found → (l.usedFor bodies).Finds found := by
  intro calls failure
  have hfinds : l.Finds l.initialLevel.2 := finds_iff.2 rfl
  refine ⟨⟨_, hfinds⟩, l.askDriver_mem_manualCommit b, ?failed, ?found, ?used⟩
  case failed =>
    intro f h
    obtain ⟨hcalls, hfailure⟩ : calls = l.initialLevel.1 ∧ failure = some f :=
      Prod.ext_iff.1 (manualCommit_of_error h b)
    rw [hcalls]
    exact ⟨l.body_notMem_initialLevel, l.levels_initialLevel, hfailure⟩
  case found =>
    intro level h
    obtain ⟨hcalls, hfailure⟩ :
        calls = l.initialLevel.1 ++ l.enter level ++ .body :: leave b level ∧ failure = b.failure :=
      Prod.ext_iff.1 (manualCommit_of_ok h b)
    have hsurrounds := l.surrounds_leave b level
    refine ⟨hfailure, ⟨_, _, hcalls, hsurrounds, hsurrounds.levelAfter_before⟩, ?_⟩
    intro hb
    rw [hcalls]
    exact hsurrounds.levelAfter hb
  case used =>
    intro bodies hbodies found h
    exact finds_usedFor hbodies h

/-- The driver tells that the connection commits by itself, and the body fails. -/
theorem level_is_put_back_after_a_failed_body :
    let l : Link := ⟨none, .level autocommit, "READ COMMITTED"⟩
    let b : BodyEnd := ⟨false, some (.raised .runtime "decoder crashed")⟩
    l.Finds (.ok autocommit) ∧
      (l.manualCommit b).1 = [.askDriver, .setLevel "READ COMMITTED", .body, .setLevel autocommit] ∧
      (l.manualCommit b).2 = b.failure ∧ levelAfter autocommit (l.manualCommit b).1 = autocommit ∧
      (l.usedFor [b, ⟨false, none⟩, b]).Finds (.ok autocommit) := by
  intro l b
  have hfinds : l.Finds (.ok autocommit) := .reported (.inl rfl) rfl
  obtain ⟨-, -, -, hfound, hused⟩ := level_is_put_back l b
  obtain ⟨hfailure, -, hback⟩ := hfound autocommit hfinds
  have hbodies : ∀ b' ∈ [b, ⟨false, none⟩, b], b'.invalidates = false := by simp [b]
  exact ⟨hfinds, rfl, hfailure, hback rfl, hused _ hbodies _ hfinds⟩

-- A connection that is lost on the way is not touched again.
example (f : Failure) :
    ((⟨some autocommit, .driverError, "READ COMMITTED"⟩ : Link).manualCommit ⟨true, some f⟩).1 =
      [.setLevel "READ COMMITTED", .body] := rfl

end Link

end FeedLedger
