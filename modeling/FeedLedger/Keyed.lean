namespace FeedLedger.Keyed

variable {α : Type}

def get? (key : String) : List (String × α) → Option α
  | [] => none
  | (k, a) :: r => if k = key then some a else get? key r

/-- Puts a value under a key: in place if the key is there, at the end otherwise. -/
def put (key : String) (a : α) : List (String × α) → List (String × α)
  | [] => [(key, a)]
  | (k, b) :: r => if k = key then (k, a) :: r else (k, b) :: put key a r

/-- Each key once, at the place where it comes first, with the value that comes last. -/
def ofPairs (pairs : List (String × α)) : List (String × α) :=
  pairs.foldl (fun l (key, a) => put key a l) []

def keys (l : List (String × α)) : List String := l.map (·.1)

def add (key : String) (n : Nat) (l : List (String × Nat)) : List (String × Nat) :=
  put key ((get? key l).getD 0 + n) l

def addAll (more : List (String × Nat)) (l : List (String × Nat)) : List (String × Nat) :=
  more.foldl (fun l (key, n) => add key n l) l

@[simp] theorem get?_nil (key : String) : get? key ([] : List (String × α)) = none := rfl

@[simp] theorem get?_put_self (key : String) (a : α) (l : List (String × α)) :
    get? key (put key a l) = some a := by
  induction l with
  | nil => simp [put, get?]
  | cons p r ih =>
    obtain ⟨k, b⟩ := p
    by_cases h : k = key <;> simp [put, get?, h, ih]

theorem get?_put_ne {key other : String} (h : other ≠ key) (a : α) (l : List (String × α)) :
    get? other (put key a l) = get? other l := by
  induction l with
  | nil => simp [put, get?, Ne.symm h]
  | cons p r ih =>
    obtain ⟨k, b⟩ := p
    by_cases hk : k = key
    · subst hk; simp [put, get?, Ne.symm h]
    · simp [put, get?, hk, ih]

theorem get?_put (key other : String) (a : α) (l : List (String × α)) :
    get? other (put key a l) = if other = key then some a else get? other l := by
  by_cases h : other = key
  · subst h; simp
  · simp [get?_put_ne h, h]

theorem mem_keys_iff {key : String} {l : List (String × α)} : key ∈ keys l ↔ (get? key l).isSome := by
  induction l with
  | nil => simp [keys]
  | cons p r ih =>
    obtain ⟨k, b⟩ := p
    by_cases h : k = key
    · simp [keys, get?, h]
    · have : key ≠ k := fun e => h e.symm
      simpa [keys, get?, h, this] using ih

theorem keys_put (key : String) (a : α) (l : List (String × α)) :
    keys (put key a l) = if key ∈ keys l then keys l else keys l ++ [key] := by
  induction l with
  | nil => simp [put, keys]
  | cons p r ih =>
    obtain ⟨k, b⟩ := p
    by_cases h : k = key
    · simp [put, keys, h]
    · have hn : key ≠ k := fun e => h e.symm
      simp only [keys] at ih
      by_cases hm : key ∈ r.map (·.1) <;> simp [put, keys, h, hn, hm, ih]

theorem get?_add (key other : String) (n : Nat) (l : List (String × Nat)) :
    (get? other (add key n l)).getD 0 = (get? other l).getD 0 + if other = key then n else 0 := by
  rw [add, get?_put]
  by_cases h : other = key
  · subst h; simp
  · simp [h]

end FeedLedger.Keyed
