import FeedLedger.Insert
import FeedLedger.Keyed
import FeedLedger.Store.Cell

namespace FeedLedger

/-- The parameters of one row: values under column names. -/
abbrev Params := List (String × Value)

/-- A statement whose parameters have been handed to their columns, with the columns it writes. -/
structure BoundInsert where
  statement : Insert
  named : List String
  rows : List (List (String × Binding))
  deriving DecidableEq

namespace Insert

/-- The columns a chunk writes: those that its first row names. -/
def named (i : Insert) (chunk : List Params) : List String :=
  match chunk with
  | [] => []
  | first :: _ => i.columns.filter fun c => (Keyed.get? c first).isSome

/-- Hands one parameter to its column; a row has to name every column of its chunk. -/
def bindColumn (i : Insert) (params : Params) (column : String) : Binding :=
  match Keyed.get? column params, i.table.column? column with
  | some v, some c => c.type.bind v
  | _, _ => .refused

def bindRow (i : Insert) (named : List String) (params : Params) : List (String × Binding) :=
  named.map fun c => (c, i.bindColumn params c)

/-- A chunk of rows without columns. A single row takes the defaults of all columns; several rows write a null to the
first one. -/
def bindEmpty (i : Insert) (chunk : List Params) : BoundInsert :=
  if chunk.length = 1 then ⟨i, [], [[]]⟩
  else ⟨i, i.table.columnNames.take 1, chunk.map fun _ => (i.table.columnNames.take 1).map (·, .cell .null)⟩

/-- Hands all parameters of a chunk to their columns. A column that does not take one keeps the statement from being
executed at all. -/
def bind (i : Insert) (chunk : List Params) : Except Failure BoundInsert :=
  let named := i.named chunk
  let rows := chunk.map (i.bindRow named)
  if rows.any fun r => r.any fun (_, x) => x = .refused then .error (.database .parameter)
  else if named = [] then .ok (i.bindEmpty chunk)
  else .ok ⟨i, named, rows⟩

theorem statement_of_bind {i : Insert} {chunk : List Params} {b : BoundInsert} (h : i.bind chunk = .ok b) :
    b.statement = i := by
  unfold bind at h
  simp only at h
  split at h
  · cases h
  · split at h <;> cases h
    · unfold bindEmpty; split <;> rfl
    · rfl

end Insert

end FeedLedger
