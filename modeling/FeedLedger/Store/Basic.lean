import FeedLedger.Store.Insertion

namespace FeedLedger

/-- The rows of each table, in the order they were made. -/
structure Store where
  rows : String → List Row

namespace Store

def empty : Store := ⟨fun _ => []⟩

def set (s : Store) (table : String) (rows : List Row) : Store :=
  ⟨fun t => if t = table then rows else s.rows t⟩

def execute (s : Store) (b : BoundInsert) : Except Failure Store :=
  let table := b.statement.table.name
  (b.apply (s.rows table)).map (s.set table)

/-- The number of rows of each record table that has any. -/
def counts (s : Store) : List (String × Nat) :=
  Catalog.recordTables.filterMap fun t =>
    match s.rows t.name with
    | [] => none
    | rows => some (t.name, rows.length)

/-- The rows of a table, by their numbers if it has numbers. -/
def numberedRows (s : Store) (t : Table) : List Row :=
  let number (r : Row) : Int := (r.number? t.rowNumber).getD 0
  Ascending.sort (fun a b => number a < number b) (s.rows t.name)

@[ext] theorem ext {s t : Store} (h : ∀ table, s.rows table = t.rows table) : s = t := by
  cases s; cases t; congr; exact funext h

@[simp] theorem rows_set_self (s : Store) (table : String) (rows : List Row) :
    (s.set table rows).rows table = rows := by
  simp [set]

theorem rows_set_ne {table other : String} (h : other ≠ table) (s : Store) (rows : List Row) :
    (s.set table rows).rows other = s.rows other := by
  simp [set, h]

theorem rows_of_execute {s s' : Store} {b : BoundInsert} (h : s.execute b = .ok s') :
    ∃ rows, b.apply (s.rows b.statement.table.name) = .ok rows ∧ s' = s.set b.statement.table.name rows := by
  unfold execute at h
  cases ha : b.apply (s.rows b.statement.table.name) with
  | error f => simp [ha, Except.map] at h
  | ok rows => exact ⟨rows, rfl, by simpa [ha, Except.map, eq_comm] using h⟩

end Store

end FeedLedger
