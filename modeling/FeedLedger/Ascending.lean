namespace FeedLedger.Ascending

variable {α : Type}

/-- Inserts an element before the first one that is not below it. -/
def insert (below : α → α → Bool) (a : α) : List α → List α
  | [] => [a]
  | b :: r => if below b a then b :: insert below a r else a :: b :: r

/-- Sorting by insertion. -/
def sort (below : α → α → Bool) : List α → List α
  | [] => []
  | a :: r => insert below a (sort below r)

theorem insert_perm (below : α → α → Bool) (a : α) (l : List α) : (insert below a l).Perm (a :: l) := by
  induction l with
  | nil => exact .refl _
  | cons b r ih =>
    unfold insert
    split
    · exact (ih.cons b).trans (.swap a b r)
    · exact .refl _

theorem sort_perm (below : α → α → Bool) (l : List α) : (sort below l).Perm l := by
  induction l with
  | nil => exact .refl _
  | cons a r ih => exact (insert_perm below a _).trans (ih.cons a)

def texts (l : List String) : List String := sort (fun a b => a < b) l

end FeedLedger.Ascending
