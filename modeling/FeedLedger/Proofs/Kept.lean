import FeedLedger.Schema
import Mathlib.Data.List.Induction
import Mathlib.Data.List.Nodup
import Mathlib.Tactic.Common

namespace FeedLedger.ConflictPolicy

variable {α κ : Type} [DecidableEq κ] {key : α → κ} {items more other : List α} {a b : α} {k : κ}

/-- The item that stands for a key. -/
def pick (policy : ConflictPolicy) (key : α → κ) (items : List α) (k : κ) : Option α :=
  match policy with
  | ignore => items.find? (key · = k)
  | update => items.reverse.find? (key · = k)

/-- The keys of items, each where it first came up. -/
def keys (key : α → κ) (items : List α) : List κ := (items.map key).eraseDups

/-- One item for each key, in the order of the keys. -/
def kept (policy : ConflictPolicy) (key : α → κ) (items : List α) : List α :=
  (keys key items).filterMap (policy.pick key items)

theorem mem_keys : k ∈ keys key items ↔ k ∈ items.map key := List.mem_eraseDups

theorem key_of_pick {policy : ConflictPolicy} (h : policy.pick key items k = some a) : key a = k := by
  cases policy <;> simpa using List.find?_some h

theorem mem_of_pick {policy : ConflictPolicy} (h : policy.pick key items k = some a) : a ∈ items := by
  cases policy with
  | ignore => exact List.mem_of_find?_eq_some h
  | update => exact List.mem_reverse.1 (List.mem_of_find?_eq_some h)

theorem exists_pick (policy : ConflictPolicy) (h : k ∈ items.map key) : ∃ a, policy.pick key items k = some a := by
  obtain ⟨b, hb, rfl⟩ := List.mem_map.1 h
  rw [← Option.isSome_iff_exists]
  cases policy with
  | ignore => exact List.find?_isSome.2 ⟨b, hb, by simp⟩
  | update => exact List.find?_isSome.2 ⟨b, List.mem_reverse.2 hb, by simp⟩

theorem pick_eq_none {policy : ConflictPolicy} (h : k ∉ items.map key) : policy.pick key items k = none := by
  cases hp : policy.pick key items k with
  | none => rfl
  | some a =>
    have hk := key_of_pick hp
    exact absurd (hk ▸ List.mem_map_of_mem (mem_of_pick hp)) h

theorem pick_ignore_append (key : α → κ) (items more : List α) (k : κ) :
    ignore.pick key (items ++ more) k = (ignore.pick key items k).or (ignore.pick key more k) :=
  List.find?_append

theorem pick_update_append (key : α → κ) (items more : List α) (k : κ) :
    update.pick key (items ++ more) k = (update.pick key more k).or (update.pick key items k) := by
  simp only [pick, List.reverse_append]
  exact List.find?_append

theorem pick_single (policy : ConflictPolicy) (key : α → κ) (a : α) (k : κ) :
    policy.pick key [a] k = if key a = k then some a else none := by
  cases policy <;> by_cases h : key a = k <;> simp [pick, h]

theorem keys_append (key : α → κ) (items more : List α) : keys key items <+: keys key (items ++ more) := by
  rw [keys, keys, List.map_append, List.eraseDups_append]
  exact List.prefix_append _ _

theorem keys_append_of_subset (h : ∀ a ∈ more, key a ∈ items.map key) : keys key (items ++ more) = keys key items := by
  have hnone : (more.map key).removeAll (items.map key) = [] := by
    rw [List.removeAll, List.filter_eq_nil_iff]
    intro k hk
    obtain ⟨a, ha, rfl⟩ := List.mem_map.1 hk
    simpa using h a ha
  rw [keys, List.map_append, List.eraseDups_append, hnone, List.eraseDups_nil, List.append_nil, keys]

theorem keys_concat_new (h : key a ∉ items.map key) : keys key (items ++ [a]) = keys key items ++ [key a] := by
  have hall : [key a].removeAll (items.map key) = [key a] := by
    rw [List.removeAll, List.filter_eq_self]
    simpa using h
  rw [keys, List.map_append, List.map_singleton, List.eraseDups_append, hall, keys]
  rfl

theorem nodup_keys (key : α → κ) (items : List α) : (keys key items).Nodup := by
  induction items using List.reverseRecOn with
  | nil => exact List.nodup_nil
  | append_singleton items a ih =>
    by_cases hk : key a ∈ items.map key
    · have hmore : ∀ b ∈ [a], key b ∈ items.map key := by simpa using hk
      rw [keys_append_of_subset hmore]
      exact ih
    · have hnew : key a ∉ keys key items := by
        rw [mem_keys]
        exact hk
      rw [keys_concat_new hk, ← List.concat_eq_append]
      exact ih.concat hnew

theorem keys_perm (h : ∀ a, a ∈ items ↔ a ∈ other) : (keys key items).Perm (keys key other) := by
  rw [List.perm_ext_iff_of_nodup (nodup_keys key items) (nodup_keys key other)]
  intro k
  simp only [mem_keys, List.mem_map, h]

/-- Each key stands once. -/
theorem map_key_kept (policy : ConflictPolicy) (key : α → κ) (items : List α) :
    (policy.kept key items).map key = keys key items := by
  have hall : ∀ ks : List κ, (∀ k ∈ ks, k ∈ items.map key) → (ks.filterMap (policy.pick key items)).map key = ks := by
    intro ks hks
    induction ks with
    | nil => rfl
    | cons k rest ih =>
      obtain ⟨hk, hrest⟩ := List.forall_mem_cons.1 hks
      obtain ⟨a, ha⟩ := exists_pick policy hk
      rw [List.filterMap_cons_some ha, List.map_cons, key_of_pick ha, ih hrest]
  exact hall _ fun k hk => mem_keys.1 hk

theorem mem_map_kept (policy : ConflictPolicy) : k ∈ (policy.kept key items).map key ↔ k ∈ items.map key := by
  rw [map_key_kept, mem_keys]

theorem mem_kept {policy : ConflictPolicy} :
    a ∈ policy.kept key items ↔ policy.pick key items (key a) = some a := by
  rw [kept, List.mem_filterMap]
  constructor
  · rintro ⟨k, -, hk⟩
    rw [key_of_pick hk]
    exact hk
  · intro h
    exact ⟨key a, mem_keys.2 (List.mem_map_of_mem (mem_of_pick h)), h⟩

/-- The same items are kept, maybe in another order, if the same one stands for each key. -/
theorem kept_perm {policy : ConflictPolicy} (h : ∀ k, policy.pick key items k = policy.pick key other k) :
    (policy.kept key items).Perm (policy.kept key other) := by
  have hnodup (items : List α) : (policy.kept key items).Nodup := by
    apply List.Nodup.of_map key
    rw [map_key_kept]
    exact nodup_keys key items
  rw [List.perm_ext_iff_of_nodup (hnodup items) (hnodup other)]
  intro a
  rw [mem_kept, mem_kept, h]

theorem kept_concat_new (policy : ConflictPolicy) (h : key a ∉ items.map key) :
    policy.kept key (items ++ [a]) = policy.kept key items ++ [a] := by
  have hold : ∀ k ∈ keys key items, policy.pick key (items ++ [a]) k = policy.pick key items k := by
    intro k hk
    have hne : key a ≠ k := fun e => h (e ▸ mem_keys.1 hk)
    cases policy with
    | ignore => rw [pick_ignore_append, pick_single, if_neg hne, Option.or_none]
    | update => rw [pick_update_append, pick_single, if_neg hne, Option.none_or]
  have hnew : policy.pick key (items ++ [a]) (key a) = some a := by
    cases policy with
    | ignore => rw [pick_ignore_append, pick_single, if_pos rfl, pick_eq_none h, Option.none_or]
    | update => rw [pick_update_append, pick_single, if_pos rfl, Option.some_or]
  rw [kept, keys_concat_new h, List.filterMap_append, List.filterMap_congr hold, List.filterMap_cons_some hnew]
  rfl

/-- Items whose keys are taken are skipped. -/
theorem kept_ignore_append (h : ∀ a ∈ more, key a ∈ items.map key) :
    ignore.kept key (items ++ more) = ignore.kept key items := by
  rw [kept, keys_append_of_subset h, kept]
  apply List.filterMap_congr
  intro k hk
  obtain ⟨a, ha⟩ := exists_pick ignore (mem_keys.1 hk)
  rw [pick_ignore_append, ha, Option.some_or]

/-- An item whose key is taken takes the place of the one that stands for it. -/
theorem kept_update_concat (h : key a ∈ items.map key) :
    update.kept key (items ++ [a]) = (update.kept key items).map fun b => if key b = key a then a else b := by
  rw [kept, keys_append_of_subset (by simpa using h), kept, List.map_filterMap]
  apply List.filterMap_congr
  intro k hk
  obtain ⟨b, hb⟩ := exists_pick update (mem_keys.1 hk)
  rw [pick_update_append, pick_single, hb, Option.map_some, key_of_pick hb]
  by_cases hsame : key a = k
  · rw [if_pos hsame, if_pos hsame.symm, Option.some_or]
  · rw [if_neg hsame, if_neg fun e => hsame e.symm, Option.none_or]

example : update.kept Prod.fst [(1, 'a'), (2, 'b'), (1, 'c')] = [(1, 'c'), (2, 'b')] := by decide

/-- What follows is kept alike behind items of which the same is kept. -/
theorem kept_append_congr {policy : ConflictPolicy} (h : policy.kept key items = policy.kept key other)
    (rest : List α) : policy.kept key (items ++ rest) = policy.kept key (other ++ rest) := by
  induction rest generalizing items other with
  | nil => simpa using h
  | cons a rest ih =>
    rw [List.append_cons items, List.append_cons other]
    apply ih
    have hsame : key a ∈ items.map key ↔ key a ∈ other.map key := by
      rw [← policy.mem_map_kept, h, policy.mem_map_kept]
    by_cases hk : key a ∈ items.map key
    · cases policy with
      | ignore => rw [kept_ignore_append (by simpa using hk), kept_ignore_append (by simpa using hsame.1 hk), h]
      | update => rw [kept_update_concat hk, kept_update_concat (hsame.1 hk), h]
    · rw [kept_concat_new policy hk, kept_concat_new policy fun e => hk (hsame.2 e), h]

/-- Items that come again at once change nothing. -/
theorem kept_update_again (key : α → κ) (items more : List α) :
    update.kept key (items ++ more ++ more) = update.kept key (items ++ more) := by
  have hkeys : ∀ a ∈ more, key a ∈ (items ++ more).map key := by
    intro a ha
    exact List.mem_map_of_mem (List.mem_append_right items ha)
  rw [kept, keys_append_of_subset hkeys, kept]
  apply List.filterMap_congr
  intro k _
  rw [pick_update_append, pick_update_append]
  cases update.pick key more k with
  | none => rw [Option.none_or, Option.none_or]
  | some a => rw [Option.some_or, Option.some_or]

end FeedLedger.ConflictPolicy
