import FeedLedger.Store.Bound
import FeedLedger.Store.Row
import FeedLedger.Table.Target

namespace FeedLedger

namespace BoundInsert

/-- What the statement does with clashes, the target given as a key of the table; none if the database cannot run
the statement. There has to be a column to write, a key that the target names, and a time of change to renew. No
time of change is looked for where the table numbers the rows and the number is the target, since then no row clashes
on it. -/
def conflict? (b : BoundInsert) : Option Conflict :=
  let t := b.statement.table
  if b.named = [] then none
  else
    match b.statement.conflict with
    | .ignore => some .ignore
    | .update target set touch =>
      match t.targetKey? target with
      | none => none
      | some key =>
        let idle := key = [t.rowNumber] ∧ t.rowNumber ∉ b.named
        if touch ∧ Column.updatedAt.name ∉ t.columnNames ∧ ¬idle then none else some (.update key set touch)

/-- The cells of a row, or the first parameter the driver cannot pass on. -/
def cells : List (String × Binding) → Except Failure (List (String × Cell))
  | [] => .ok []
  | (c, .cell cell) :: r => (cells r).map ((c, cell) :: ·)
  | (_, .tooLarge) :: _ => .error .integerTooLarge
  | (_, .unsupported) :: _ => .error (.database .unsupported)
  | (_, .refused) :: _ => .error (.database .parameter)

end BoundInsert

namespace Table

/-- Settles a clash on a key by overwriting. The row that results may clash with no other one. -/
def overwrite (t : Table) (key set : List String) (touch : Bool) (row : Row) (rows : List Row) :
    Except Failure (List Row) :=
  let others := rows.filter fun r => !r.agrees key row
  let clashes (r : Row) : Bool := others.any fun q => t.keys.any fun key => q.agrees key r
  if rows.any fun r => r.agrees key row && clashes (r.overwrite row set touch) then .error (.database .integrity)
  else .ok (rows.map fun r => if r.agrees key row then r.overwrite row set touch else r)

/-- Inserts one row. A null where a value is needed is refused whatever the statement does with clashes. -/
def insertRow (t : Table) (conflict : Conflict) (rows : List Row) (given : List (String × Cell)) :
    Except Failure (List Row) :=
  let row := t.newRow given rows
  let clashes : Bool := rows.any fun r => (t.openKeys given).any fun key => r.agrees key row
  if t.refuses row then .error (.database .integrity)
  else
    match conflict with
    | .ignore => .ok (if clashes then rows else rows ++ [row])
    | .update key set touch =>
      if rows.any fun r => r.agrees key row then t.overwrite key set touch row rows
      else if clashes then .error (.database .integrity)
      else .ok (rows ++ [row])

def insertRows (t : Table) (conflict : Conflict) (rows : List Row) :
    List (List (String × Binding)) → Except Failure (List Row)
  | [] => .ok rows
  | b :: r =>
    match BoundInsert.cells b with
    | .error f => .error f
    | .ok given =>
      match t.insertRow conflict rows given with
      | .error f => .error f
      | .ok rows => t.insertRows conflict rows r

end Table

namespace BoundInsert

def apply (b : BoundInsert) (rows : List Row) : Except Failure (List Row) :=
  if b.statement.hasNull then .error (.database .unsupported)
  else
    match b.conflict? with
    | none => .error (.database .operational)
    | some conflict => b.statement.table.insertRows conflict rows b.rows

end BoundInsert

end FeedLedger
