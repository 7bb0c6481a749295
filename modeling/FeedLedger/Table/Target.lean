import FeedLedger.Table.Identifier

namespace FeedLedger.Table

/-- The names for the number of a row, where no column has one of them. -/
def rowNumberNames : List String := ["rowid", "oid", "_rowid_"]

/-- The column that holds the number of a row; a table without one numbers its rows out of sight. -/
def rowNumber (t : Table) : String :=
  match t.columns.find? (·.type = .rowNumber) with
  | some c => c.name
  | none => "rowid"

/-- The column that a name in a statement stands for, in either case. -/
def columnNamed? (t : Table) (name : String) : Option String :=
  let word := (Identifier.read .sqlite name).toLower
  match t.columnNames.find? (·.toLower = word) with
  | some column => some column
  | none => if rowNumberNames.contains word then some t.rowNumber else none

def columnsNamed? (t : Table) : List String → Option (List String)
  | [] => some []
  | name :: r =>
    match t.columnNamed? name, t.columnsNamed? r with
    | some column, some columns => some (column :: columns)
    | _, _ => none

/-- The key that a conflict target names: the number of a row, or all columns of a key in any order. -/
def targetKey? (t : Table) (target : List String) : Option (List String) :=
  match t.columnsNamed? target with
  | none => none
  | some columns =>
    if columns = [t.rowNumber] then some columns
    else t.keys.find? fun key => key.length = columns.length && key.all (columns.contains ·)

end FeedLedger.Table
