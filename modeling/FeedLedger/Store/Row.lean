import FeedLedger.Keyed
import FeedLedger.Store.Cell

namespace FeedLedger

/-- A stored row: a cell for each column of its table. -/
structure Row where
  cells : List (String × Cell)
  deriving DecidableEq

namespace Row

def cell (r : Row) (column : String) : Cell := (Keyed.get? column r.cells).getD .null

def number? (column : String) (r : Row) : Option Int :=
  match r.cell column with
  | .integer n => some n
  | _ => none

/-- Rows agree on columns if their cells there are equal and none is null. -/
def agrees (columns : List String) (r q : Row) : Bool :=
  columns.all fun c => r.cell c = q.cell c && r.cell c ≠ .null

def largest? : List Int → Option Int
  | [] => none
  | n :: r =>
    match largest? r with
    | none => some n
    | some m => some (if n < m then m else n)

/-- The first number from `n` on that is not used; `fuel` are tried. -/
def firstFree (used : List Int) (n : Int) : Nat → Int
  | 0 => n
  | fuel + 1 => if used.contains n then firstFree used (n + 1) fuel else n

/-- The number of a new row: one for the first row, and one more than the largest after it. Behind the largest
number of all, a free one is taken. -/
def nextNumber (column : String) (rows : List Row) : Int :=
  let used := rows.filterMap (number? column)
  match largest? used with
  | none => 1
  | some n => if n = Binding.greatest then firstFree used 1 used.length else n + 1

/-- Copies columns of another row, and renews the time of change if `touch` is set. -/
def overwrite (r new : Row) (set : List String) (touch : Bool) : Row :=
  ⟨r.cells.map fun (c, old) =>
    (c, if set.contains c then new.cell c
      else if touch && c = Column.updatedAt.name then .clock
      else old)⟩

theorem le_largest? {used : List Int} {n m : Int} (hn : n ∈ used) (hm : largest? used = some m) : n ≤ m := by
  induction used generalizing m with
  | nil => cases hn
  | cons k r ih =>
    unfold largest? at hm
    cases hr : largest? r with
    | none =>
      cases r with
      | nil => simp_all
      | cons j t =>
        unfold largest? at hr
        split at hr <;> cases hr
    | some l =>
      rw [hr] at hm
      simp only [Option.some.injEq] at hm
      rcases List.mem_cons.1 hn with rfl | h
      · split at hm <;> omega
      · have := ih h hr
        split at hm <;> omega

end Row

namespace Column

/-- The cell of this column in a new row with the given cells and number. -/
def fill (given : List (String × Cell)) (number : Int) (c : Column) : Cell :=
  match Keyed.get? c.name given, c.filling with
  | none, .null => .null
  | none, .number | some .null, .number => .integer number
  | none, .clock => .clock
  | some cell, _ => cell

/-- Whether the column refuses a cell. -/
def refuses (c : Column) : Cell → Bool
  | .null => !c.nullable
  | .integer _ => false
  | _ => c.type = .rowNumber

end Column

namespace Table

/-- A new row with the given cells; the other columns are filled as they are declared. -/
def newRow (t : Table) (given : List (String × Cell)) (rows : List Row) : Row :=
  ⟨t.columns.map fun c => (c.name, c.fill given (Row.nextNumber t.primaryKey rows))⟩

/-- Whether a column is numbered by the table in a row with the given cells. -/
def numbers (t : Table) (given : List (String × Cell)) (column : String) : Bool :=
  (t.column? column).any fun c =>
    c.filling = .number && ((Keyed.get? column given).getD .null = .null)

/-- The keys on which a new row may clash. A number the table gives is new. -/
def openKeys (t : Table) (given : List (String × Cell)) : List (List String) :=
  t.keys.filter fun key => !key.any (t.numbers given)

/-- Whether a row breaks a constraint on its own. -/
def refuses (t : Table) (r : Row) : Bool := t.columns.any fun c => c.refuses (r.cell c.name)

end Table

end FeedLedger
