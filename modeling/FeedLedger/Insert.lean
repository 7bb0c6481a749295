import FeedLedger.Failure
import FeedLedger.Table.Catalog
import FeedLedger.Table.Identifier
import FeedLedger.Table.Placeholder

namespace FeedLedger

/-- What a statement does with a row whose key is taken. -/
inductive Conflict
  | ignore
  /-- Overwrites the columns `set` of the row that agrees on the columns `target`, and renews its time of
  change if `touch` is set. -/
  | update (target set : List String) (touch : Bool)
  deriving DecidableEq

/-- An insert into a table, with the columns it may write in the table's order. -/
structure Insert where
  table : Table
  columns : List String
  conflict : Conflict
  deriving DecidableEq

namespace Schema

/-- The columns an update sets, as the schema lists them. -/
def overwritten (s : Schema) : List String := s.writeColumns.filter (!s.conflictKeys.contains ·)

/-- The part of the statement that settles clashes. -/
def conflict (s : Schema) (t : Table) : Except Failure Conflict :=
  match s.policy with
  | .ignore => .ok .ignore
  | .update =>
    match s.overwritten.find? (!t.columnNames.contains ·) with
    | some c => .error (.unknownColumn c)
    | none =>
      if s.overwritten = [] ∧ s.touchUpdated = false then .error .nothingToUpdate
      else
        .ok (.update s.conflictKeys
          (t.columnNames.filter fun c =>
            s.overwritten.contains c && !(s.touchUpdated && c = Column.updatedAt.name))
          s.touchUpdated)

/-- The insert statement of a schema in a dialect. The table is looked up before the dialect. -/
def insert (s : Schema) (dialect : String) : Except Failure Insert :=
  match Catalog.table? s.table with
  | none => .error (.unknownTable s.table)
  | some t =>
    match Dialect.ofName? dialect with
    | none => .error (.unsupportedDialect dialect)
    | some _ => (s.conflict t).map fun c => ⟨t, t.columnNames.filter (s.writeColumns.contains ·), c⟩

end Schema

namespace Insert

def hasNull (i : Insert) : Bool :=
  match i.conflict with
  | .ignore => false
  | .update target _ _ => target.any fun name => name.toList.contains '\x00'

/-- The statement up to its values. Without columns, all of them take their defaults. -/
def head (dialect : Dialect) (i : Insert) : String :=
  "INSERT INTO " ++ Identifier.written dialect i.table.name ++
    (if i.columns = [] then " DEFAULT" else " (" ++ Identifier.list dialect i.columns ++ ")")

def clock : Dialect → String
  | .sqlite => "CURRENT_TIMESTAMP"
  | .postgresql => "now()"

/-- The assignments of an update: each column from the refused row, the time of change from the clock. -/
def assignments (dialect : Dialect) (set : List String) (touch : Bool) : List String :=
  (set.map fun c => Identifier.written dialect c ++ " = excluded." ++ Identifier.written dialect c) ++
    (if touch then [Column.updatedAt.name ++ " = " ++ clock dialect] else [])

/-- The statement behind its values, with named placeholders. -/
def namedTail (dialect : Dialect) (i : Insert) : String :=
  match i.conflict with
  | .ignore => "ON CONFLICT DO NOTHING"
  | .update target set touch =>
    "ON CONFLICT (" ++ Identifier.list dialect target ++ ") DO UPDATE SET " ++
      ", ".intercalate (assignments dialect set touch)

/-- The statement behind its values. A dialect that counts its placeholders takes every name of one for a
placeholder, wherever it stands. -/
def tail (dialect : Dialect) (i : Insert) : String :=
  match dialect with
  | .sqlite => Placeholder.counted i.columns (i.namedTail dialect)
  | .postgresql => i.namedTail dialect

end Insert

end FeedLedger
