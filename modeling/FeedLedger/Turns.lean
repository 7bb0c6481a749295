import FeedLedger.Keyed

namespace FeedLedger.Turns

variable {α : Type}

/-- Adds an entry behind those of its key. -/
def enqueue (key : α → String) (queue : List (String × List α)) (a : α) : List (String × List α) :=
  Keyed.put (key a) ((Keyed.get? (key a) queue).getD [] ++ [a]) queue

/-- The entries by key, the keys in the order they come in. -/
def byKey (key : α → String) (l : List α) : List (String × List α) := l.foldl (enqueue key) []

/-- Serves a queue of rows of entries. The row at the head is served one entry and goes to the end with the rest. -/
def serve : List (List α) → List α
  | [] => []
  | [] :: queue => serve queue
  | (a :: rest) :: queue => a :: serve (queue ++ [rest])
termination_by queue => queue.flatten.length + queue.length
decreasing_by all_goals (simp; try omega)

/-- The entries in the order they are served. -/
def order (key : α → String) (l : List α) : List α := serve ((byKey key l).map (·.2))

theorem serve_perm (queue : List (List α)) : (serve queue).Perm queue.flatten := by
  fun_induction serve queue with
  | case1 => exact .refl _
  | case2 queue ih => simpa using ih
  | case3 a rest queue ih =>
    simpa using (ih.trans (by simpa using List.perm_append_comm)).cons a

end FeedLedger.Turns
