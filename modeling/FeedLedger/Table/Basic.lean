import FeedLedger.Ascending
import FeedLedger.Text.DecimalDigit

namespace FeedLedger

/-- The databases a table can be declared to. -/
inductive Dialect
  | sqlite
  | postgresql
  deriving DecidableEq

namespace Dialect

def ofName? : String → Option Dialect
  | "sqlite" => some sqlite
  | "postgresql" => some postgresql
  | _ => none

end Dialect

inductive ColumnType
  | rowNumber
  | integer
  | bigInteger
  | text
  | shortText (length : Nat)
  | timestamp
  | price
  | double
  | boolean
  deriving DecidableEq

namespace ColumnType

/-- The type's name. Only one integer type is numbered automatically by sqlite. -/
def declared (dialect : Dialect) : ColumnType → String
  | rowNumber => match dialect with | .sqlite => "INTEGER" | .postgresql => "BIGINT"
  | integer => "INTEGER"
  | bigInteger => "BIGINT"
  | text => "VARCHAR"
  | shortText length => "VARCHAR(" ++ Text.ofNat length ++ ")"
  | timestamp => match dialect with | .sqlite => "DATETIME" | .postgresql => "TIMESTAMP WITH TIME ZONE"
  | price => "NUMERIC(38, 18)"
  | double => "FLOAT"
  | boolean => "BOOLEAN"

end ColumnType

/-- What fills a column that a row does not name. -/
inductive Filling
  | null
  | number
  | clock
  deriving DecidableEq

structure Column where
  name : String
  type : ColumnType
  nullable : Bool
  filling : Filling
  deriving DecidableEq

namespace Column

def needed (name : String) (type : ColumnType) : Column := ⟨name, type, false, .null⟩

def maybe (name : String) (type : ColumnType) : Column := ⟨name, type, true, .null⟩

/-- The column that numbers the rows. -/
def id : Column := ⟨"id", .rowNumber, false, .number⟩

def createdAt : Column := ⟨"created_at", .timestamp, true, .clock⟩

def updatedAt : Column := ⟨"updated_at", .timestamp, false, .clock⟩

/-- The key of rows without a natural one. -/
def ingestKey : Column := needed "ingest_key" (.shortText 40)

end Column

/-- Columns under a common name; the name is empty where none is given. -/
structure NamedColumns where
  name : String
  columns : List String
  deriving DecidableEq

structure Table where
  name : String
  columns : List Column
  primaryKey : String
  unique : List NamedColumns
  indexes : List NamedColumns
  deriving DecidableEq

namespace Table

def column? (t : Table) (name : String) : Option Column := t.columns.find? (·.name = name)

def columnNames (t : Table) : List String := t.columns.map (·.name)

/-- The column sets no two rows may agree on. -/
def keys (t : Table) : List (List String) := [t.primaryKey] :: t.unique.map (·.columns)

/-- Names and columns in ascending order. -/
def NamedColumns.sorted (l : List NamedColumns) : List NamedColumns :=
  Ascending.sort (fun a b => a.name < b.name || (a.name = b.name && a.columns < b.columns)) l

end Table

end FeedLedger
