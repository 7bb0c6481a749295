import FeedLedger.Keyed
import Mathlib.Data.List.Induction
import Mathlib.Tactic.Common

namespace FeedLedger.Keyed

variable {α β : Type}

theorem nodup_keys_put {l : List (String × α)} (h : (keys l).Nodup) (key : String) (a : α) :
    (keys (put key a l)).Nodup := by
  rw [keys_put]
  split
  · exact h
  · rename_i hn
    refine List.nodup_append.2 ⟨h, by simp, ?_⟩
    intro x hx y hy
    rw [List.mem_singleton.1 hy]
    exact fun e => hn (e ▸ hx)

theorem get?_eq_none_iff {key : String} {l : List (String × α)} : get? key l = none ↔ key ∉ keys l := by
  rw [mem_keys_iff, Option.not_isSome_iff_eq_none]

theorem get?_map (name : β → String) (f : β → α) (key : String) (l : List β) :
    get? key (l.map fun b => (name b, f b)) = (l.find? (name · = key)).map f := by
  induction l with
  | nil => rfl
  | cons b r ih => by_cases h : name b = key <;> simp [get?, h, ih]

/-- Under each of its keys, a list of keys with their values holds the value. -/
theorem get?_graph (f : String → α) (key : String) (l : List String) :
    get? key (l.map fun c => (c, f c)) = if key ∈ l then some (f key) else none := by
  induction l with
  | nil => rfl
  | cons c r ih =>
    by_cases h : c = key
    · simp [get?, h]
    · have hne : key ≠ c := fun e => h e.symm
      simp [get?, h, hne, ih]

/-- Of the pairs of one key, the last one stays. -/
theorem get?_ofPairs (key : String) (pairs : List (String × α)) :
    get? key (ofPairs pairs) = get? key pairs.reverse := by
  induction pairs using List.reverseRecOn with
  | nil => rfl
  | append_singleton pairs p ih =>
    obtain ⟨k, a⟩ := p
    have hput : ofPairs (pairs ++ [(k, a)]) = put k a (ofPairs pairs) := by
      simp only [ofPairs, List.foldl_append, List.foldl_cons, List.foldl_nil]
    rw [hput, get?_put, List.reverse_append, List.reverse_singleton, List.singleton_append, get?, ih]
    by_cases hk : k = key
    · rw [if_pos hk, if_pos hk.symm]
    · rw [if_neg hk, if_neg fun e => hk e.symm]

theorem mem_put {key : String} {a : α} {l : List (String × α)} {p : String × α} (h : p ∈ put key a l) :
    p = (key, a) ∨ p ∈ l := by
  induction l with
  | nil => exact .inl (List.mem_singleton.1 h)
  | cons q r ih =>
    obtain ⟨k, b⟩ := q
    by_cases hk : k = key
    · rw [put, if_pos hk, hk] at h
      exact (List.mem_cons.1 h).imp_right (List.mem_cons_of_mem _)
    · rw [put, if_neg hk] at h
      rcases List.mem_cons.1 h with rfl | h
      · exact .inr List.mem_cons_self
      · exact (ih h).imp_right (List.mem_cons_of_mem _)

theorem zip_map (f : String → α) (l : List String) : l.zip (l.map f) = l.map fun c => (c, f c) := by
  induction l with
  | nil => rfl
  | cons c r ih => simp [ih]

theorem put_of_not_mem {key : String} {l : List (String × α)} (h : key ∉ keys l) (a : α) :
    put key a l = l ++ [(key, a)] := by
  induction l with
  | nil => rfl
  | cons p r ih =>
    obtain ⟨k, b⟩ := p
    simp only [keys, List.map_cons, List.mem_cons, not_or] at h
    rw [put, if_neg fun e => h.1 e.symm, ih h.2, List.cons_append]

theorem put_of_mem {key : String} {l : List (String × α)} (h : (keys l).Nodup) (hm : key ∈ keys l) (a : α) :
    put key a l = l.map fun p => if p.1 = key then (key, a) else p := by
  induction l with
  | nil => cases hm
  | cons p r ih =>
    obtain ⟨k, b⟩ := p
    simp only [keys, List.map_cons, List.nodup_cons] at h
    by_cases hk : k = key
    · have hrest : r.map (fun p => if p.1 = key then (key, a) else p) = r := by
        refine (List.map_congr_left fun p hp => if_neg fun e => h.1 ?_).trans (List.map_id r)
        rw [hk, ← e]
        exact List.mem_map_of_mem hp
      rw [put, if_pos hk, List.map_cons, if_pos hk, hrest, hk]
    · have hr : key ∈ keys r := (List.mem_cons.1 hm).resolve_left fun e => hk e.symm
      rw [put, if_neg hk, List.map_cons, if_neg hk, ih h.2 hr]

private theorem foldl_put (pairs acc : List (String × α)) (h : (keys (acc ++ pairs)).Nodup) :
    pairs.foldl (fun l (k, a) => put k a l) acc = acc ++ pairs := by
  induction pairs generalizing acc with
  | nil => simp
  | cons p r ih =>
    obtain ⟨k, a⟩ := p
    have hk : k ∉ keys acc := by
      simp only [keys, List.map_append, List.map_cons, List.nodup_append] at h
      exact fun hm => h.2.2 k hm k (by simp) rfl
    show r.foldl (fun l (k, a) => put k a l) (put k a acc) = _
    rw [put_of_not_mem hk, ih _ (by simpa using h)]
    simp

theorem ofPairs_eq_self {pairs : List (String × α)} (h : (keys pairs).Nodup) : ofPairs pairs = pairs :=
  foldl_put pairs [] h

theorem mem_of_get? {key : String} {a : α} {l : List (String × α)} (h : get? key l = some a) : (key, a) ∈ l := by
  induction l with
  | nil => cases h
  | cons p r ih =>
    obtain ⟨k, b⟩ := p
    by_cases hk : k = key
    · simp only [get?, hk, if_true, Option.some.injEq] at h
      simp [hk, h]
    · simp only [get?, hk, if_false] at h
      exact List.mem_cons_of_mem _ (ih h)

theorem get?_of_mem {l : List (String × α)} (h : (keys l).Nodup) {p : String × α} (hp : p ∈ l) :
    get? p.1 l = some p.2 := by
  induction l with
  | nil => cases hp
  | cons q r ih =>
    obtain ⟨k, b⟩ := q
    simp only [keys, List.map_cons, List.nodup_cons] at h
    rcases List.mem_cons.1 hp with rfl | hp
    · simp [get?]
    · have hk : k ≠ p.1 := fun e => h.1 (e ▸ List.mem_map_of_mem hp)
      simp [get?, hk, ih h.2 hp]

end FeedLedger.Keyed
