import FeedLedger.Proofs.Committed
import Mathlib.Data.String.Basic

namespace FeedLedger

namespace Ascending

variable {α β : Type} {below : α → α → Bool} {r : α → α → Prop}

theorem pairwise_insert (htrans : ∀ a b c, r a b → r b c → r a c) (hbelow : ∀ a b, below a b = true → r a b)
    (hnot : ∀ a b, ¬below b a = true → r a b) {l : List α} (h : l.Pairwise r) (a : α) :
    (insert below a l).Pairwise r := by
  induction l with
  | nil => exact List.pairwise_singleton r a
  | cons b rest ih =>
    obtain ⟨hb, hrest⟩ := List.pairwise_cons.1 h
    unfold insert
    split
    · rename_i hlt
      refine List.pairwise_cons.2 ⟨fun c hc => ?_, ih hrest⟩
      rcases List.mem_cons.1 ((insert_perm below a rest).mem_iff.1 hc) with rfl | hc
      · exact hbelow b c hlt
      · exact hb c hc
    · rename_i hge
      refine List.pairwise_cons.2 ⟨fun c hc => ?_, h⟩
      rcases List.mem_cons.1 hc with rfl | hc
      · exact hnot a c hge
      · exact htrans a b c (hnot a b hge) (hb c hc)

theorem pairwise_sort (htrans : ∀ a b c, r a b → r b c → r a c) (hbelow : ∀ a b, below a b = true → r a b)
    (hnot : ∀ a b, ¬below b a = true → r a b) (l : List α) : (sort below l).Pairwise r := by
  induction l with
  | nil => exact List.Pairwise.nil
  | cons a rest ih => exact pairwise_insert htrans hbelow hnot ih a

theorem insert_map (below : β → β → Bool) (f : α → β) (a : α) (l : List α) :
    insert below (f a) (l.map f) = (insert (fun a b => below (f a) (f b)) a l).map f := by
  induction l with
  | nil => rfl
  | cons b rest ih =>
    rw [List.map_cons, insert, insert]
    split
    · rw [List.map_cons, ih]
    · rfl

theorem sort_map (below : β → β → Bool) (f : α → β) (l : List α) :
    sort below (l.map f) = (sort (fun a b => below (f a) (f b)) l).map f := by
  induction l with
  | nil => rfl
  | cons a rest ih => rw [List.map_cons, sort, sort, ih, insert_map]

/-- Entries with different names are put in strict order. -/
theorem strict_sort {l : List (String × α)} (h : (Keyed.keys l).Nodup) :
    (sort (fun a b => a.1 < b.1) l).Pairwise (·.1 < ·.1) := by
  have hle : (sort (fun a b => a.1 < b.1) l).Pairwise (·.1 ≤ ·.1) := by
    apply pairwise_sort
    · exact fun _ _ _ hab hbc => le_trans hab hbc
    · exact fun _ _ hlt => le_of_lt (of_decide_eq_true hlt)
    · exact fun _ _ hge => not_lt.1 fun hlt => hge (decide_eq_true hlt)
  have hne : (sort (fun a b => a.1 < b.1) l).Pairwise (·.1 ≠ ·.1) :=
    List.pairwise_map.1 (((sort_perm _ l).map Prod.fst).nodup_iff.2 h)
  exact (hle.and hne).imp fun hboth => lt_of_le_of_ne hboth.1 hboth.2

end Ascending

namespace Store

/-- Whether the rows of offsets are these, one for each stream. -/
def Lists (s : Store) (entries : List (String × Int)) : Prop :=
  s.rows Catalog.offsetsTable = entries.map (fun e => Row.offset e.1 e.2) ∧ (Keyed.keys entries).Nodup

variable {s : Store} {entries : List (String × Int)}

theorem putOffset_map (h : (Keyed.keys entries).Nodup) (name : String) (n : Int) :
    putOffset name n (entries.map fun e => Row.offset e.1 e.2) =
      (Keyed.put name n entries).map fun e => Row.offset e.1 e.2 := by
  have hstream (e : String × Int) : (Row.offset e.1 e.2).cell "stream_name" = .text e.1 := rfl
  have hany : ((entries.map fun e => Row.offset e.1 e.2).any (·.cell "stream_name" = .text name)) = true ↔
      name ∈ Keyed.keys entries := by
    simp only [List.any_map, List.any_eq_true, Function.comp_apply, hstream, Cell.text.injEq, decide_eq_true_eq,
      Keyed.keys, List.mem_map]
  simp only [putOffset]
  by_cases hm : name ∈ Keyed.keys entries
  · rw [if_pos (hany.2 hm), Keyed.put_of_mem h hm, List.map_map, List.map_map]
    apply List.map_congr_left
    intro e _
    simp only [Function.comp_apply, hstream, Cell.text.injEq]
    split <;> rfl
  · rw [if_neg fun e => hm (hany.1 e), Keyed.put_of_not_mem hm, List.map_append]
    rfl

theorem Lists.offsetEntries (h : s.Lists entries) : s.offsetEntries = entries.map fun e => (e.1, .integer e.2) := by
  rw [Store.offsetEntries, h.1, List.filterMap_map]
  exact List.filterMap_eq_map_iff_forall_eq_some.2 fun _ _ => rfl

theorem Lists.offset? (h : s.Lists entries) (stream : String) : s.offset? stream = .ok (Keyed.get? stream entries) := by
  have hget := Keyed.get?_mapValues (fun _ n => Cell.integer n) stream entries
  simp only [Store.offset?]
  rw [h.offsetEntries, hget]
  cases Keyed.get? stream entries <;> rfl

theorem readEntries_integers (entries : List (String × Int)) :
    readEntries (entries.map fun e => (e.1, .integer e.2)) = .ok entries := by
  induction entries with
  | nil => rfl
  | cons e rest ih =>
    rw [List.map_cons, readEntries, ih]
    rfl

theorem Lists.offsets (h : s.Lists entries) :
    s.offsets = .ok (Ascending.sort (fun a b => a.1 < b.1) entries) := by
  rw [Store.offsets, offsetCells, h.offsetEntries, Ascending.sort_map]
  exact readEntries_integers _

end Store

namespace Ledger

variable {l : Ledger} {entries : List (String × Int)}

theorem getOffset_of_lists (h : l.store.Lists entries) (stream : String) :
    l.getOffset [] (.text stream) = .ok (Keyed.get? stream entries) :=
  getOffset_of_offset? (h.offset? stream)

theorem listOffsets_of_lists (h : l.store.Lists entries) :
    l.listOffsets [] = .ok (Ascending.sort (fun a b => a.1 < b.1) entries) := by
  have hread : l.readStore [] .listOffsets (·.offsets.mapError .storedOffset) =
      .ok (Ascending.sort (fun a b => a.1 < b.1) entries) := by
    change l.store.offsets.mapError Failure.storedOffset = _
    rw [h.offsets]
    rfl
  rw [listOffsets, hread]
  rfl

end Ledger

/-- Whether a call names a stream, by the text that its offset is kept under. -/
def Write.Names (w : Write) (stream : String) : Prop := Binding.forText w.stream = .cell (.text stream)

instance (w : Write) (stream : String) : Decidable (w.Names stream) := inferInstanceAs (Decidable (_ = _))

theorem Write.names_iff_of_forText {w : Write} {name : String} (h : Binding.forText w.stream = .cell (.text name))
    (stream : String) : w.Names stream ↔ name = stream := by
  rw [Names, h, Binding.cell.injEq, Cell.text.injEq]

theorem Write.names_iff {w : Write} {name : String} (h : w.stream = .text name) (stream : String) :
    w.Names stream ↔ name = stream := by
  apply names_iff_of_forText
  rw [h]
  rfl

namespace Attempt

/-- The offset of the last of some calls that names a stream. -/
def lastOffset (stream : String) (calls : List Attempt) : Option Value :=
  (calls.filter (·.write.Names stream)).getLast?.map (·.write.offset)

theorem lastOffset_concat (stream : String) (calls : List Attempt) (a : Attempt) :
    lastOffset stream (calls ++ [a]) =
      if a.write.Names stream then some a.write.offset else lastOffset stream calls := by
  by_cases hn : a.write.Names stream <;> simp [lastOffset, hn]

/-- The rows of offsets are those of the last calls. -/
structure Listed (store : Store) (done : List Attempt) (entries : List (String × Int)) : Prop where
  sound : store.Sound
  lists : store.Lists entries
  last : ∀ stream, lastOffset stream done = (Keyed.get? stream entries).map .int
  positive : ∀ stream n, Keyed.get? stream entries = some n → 0 ≤ n

theorem Listed.commit {a : Attempt} {o : BatchOrigin} {chunks : List Chunk} {before after : Store}
    {done : List Attempt} {entries : List (String × Int)} (h : Listed before done entries)
    (hc : a.Committed o chunks before after) :
    ∃ name, Listed after (done ++ [a]) (Keyed.put name o.offset entries) := by
  obtain ⟨name, hname, hrows⟩ := hc.commits.puts_offset h.sound
  obtain ⟨hstream, hoffset, hpositive⟩ := hc.origin
  rw [hstream] at hname
  have hnames (stream : String) : a.write.Names stream ↔ stream = name := by
    rw [Write.names_iff_of_forText hname, eq_comm]
  refine ⟨name, hc.commits.sound h.sound, ⟨?_, Keyed.nodup_keys_put h.lists.2 _ _⟩, fun stream => ?_,
    fun stream n hn => ?_⟩
  · rw [hrows, h.lists.1, Store.putOffset_map h.lists.2]
  · rw [Keyed.get?_put, lastOffset_concat, hoffset, h.last]
    simp only [hnames]
    split <;> rfl
  · rw [Keyed.get?_put] at hn
    split at hn
    · cases hn
      exact hpositive
    · exact h.positive stream n hn

theorem listed_run {calls : List Attempt} (hb : ∀ a ∈ calls, a.schemas = Registry.schema?) :
    ∃ entries, Listed (run .fresh calls).2.store (returning .fresh calls) entries := by
  have hstart : ∃ entries, Listed Ledger.fresh.store [] entries :=
    ⟨[], Store.sound_empty, ⟨rfl, List.nodup_nil⟩, fun _ => rfl, by simp⟩
  have hrun := run_keeps (P := fun store done => ∃ entries, Listed store done entries) hb
    (fun _ _ _ _ _ _ hc ⟨entries, h⟩ =>
      let ⟨name, hname⟩ := h.commit hc
      ⟨_, hname⟩) hstart
  rwa [List.nil_append] at hrun

/-- After any run, a stream is found at the offset of the last returning call that named it, the listing holds these
offsets in the order of the names, and a consumer resumes behind them; reading never fails. -/
theorem last_offset_is_found (calls : List Attempt) (hb : ∀ a ∈ calls, a.schemas = Registry.schema?) :
    let l := (run .fresh calls).2
    ∃ found : String → Option Int, (∀ stream, lastOffset stream (returning .fresh calls) = (found stream).map .int) ∧
      (∀ stream, l.getOffset [] (.text stream) = .ok (found stream)) ∧
      (∃ entries, l.listOffsets [] = .ok entries ∧ entries.Pairwise (·.1 < ·.1) ∧
        ∀ stream n, (stream, n) ∈ entries ↔ found stream = some n) ∧
      ∀ stream, (l.resume [] (.text stream)).1 = .ok ((found stream).elim .first .after) := by
  intro l
  obtain ⟨entries, h⟩ := listed_run hb
  have hget := Ledger.getOffset_of_lists h.lists
  refine ⟨fun stream => Keyed.get? stream entries, h.last, hget,
    ⟨_, Ledger.listOffsets_of_lists h.lists, Ascending.strict_sort h.lists.2, fun stream n => ?_⟩, fun stream => ?_⟩
  · rw [(Ascending.sort_perm _ entries).mem_iff]
    exact ⟨fun hm => Keyed.get?_of_mem h.lists.2 hm, Keyed.mem_of_get?⟩
  · simp only [Ledger.resume]
    rw [hget]
    cases hfound : Keyed.get? stream entries with
    | none => rfl
    | some n =>
      simp only [ReplayPosition.at?_after (h.positive stream n hfound)]
      rfl

/-- An offset is set back behind a batch. The call that fails and the one on another stream do not touch it. -/
theorem rewound_offset_is_found :
    let calls := [Write.ingest (.text "s") [.ok (.liquidation (.int 1))] (.int 5), .setOffset (.text "s") (.int 2),
      .submit 1 ⟨.text "r:s", [.ok (.liquidation (.int 1))], .int 9⟩, .setOffset (.text "s") (.int (-1))].map
        (Attempt.mk Registry.schema? 1000 false [] [])
    let l := (run .fresh calls).2
    (∀ a ∈ calls, a.schemas = Registry.schema?) ∧ (returning .fresh calls).length = 3 ∧
      l.getOffset [] (.text "s") = .ok (some 2) ∧ l.listOffsets [] = .ok [("r:s", 9), ("s", 2)] ∧
      (l.resume [] (.text "s")).1 = .ok (.after 2) ∧ (l.resume [] (.text "r")).1 = .ok .first := by
  intro calls l
  have hb : ∀ a ∈ calls, a.schemas = Registry.schema? := List.forall_mem_map.2 fun _ _ => rfl
  have hs : l.getOffset [] (.text "s") = .ok (some 2) := eq_ok_of_toOption (by decide +kernel)
  have hr : l.getOffset [] (.text "r") = .ok none := eq_ok_of_toOption (by decide +kernel)
  obtain ⟨found, -, hget, -, hresume⟩ := last_offset_is_found calls hb
  have hfound : found "s" = some 2 := Except.ok.inj ((hget "s").symm.trans hs)
  have hnone : found "r" = none := Except.ok.inj ((hget "r").symm.trans hr)
  have hbehind := hresume "s"
  have hfirst := hresume "r"
  rw [hfound] at hbehind
  rw [hnone] at hfirst
  exact ⟨hb, by decide +kernel, hs, eq_ok_of_toOption (by decide +kernel), hbehind, hfirst⟩

end Attempt

end FeedLedger
