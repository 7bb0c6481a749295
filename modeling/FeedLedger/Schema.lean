import FeedLedger.Coercion
import FeedLedger.Enumeration

namespace FeedLedger

inductive RecordKind
  | kline
  | ticker
  | publicTrade
  | orderBook
  | liquidation
  | sentimentIndex
  | indicator
  deriving DecidableEq

namespace RecordKind

def all : List RecordKind :=
  [kline, ticker, publicTrade, orderBook, liquidation, sentimentIndex, indicator]

def name : RecordKind → String
  | kline => "kline"
  | ticker => "ticker"
  | publicTrade => "public_trade"
  | orderBook => "order_book"
  | liquidation => "liquidation"
  | sentimentIndex => "sentiment_index"
  | indicator => "indicator"

end RecordKind

/-- What happens to a row whose key is taken: it is skipped, or it overwrites the stored one. -/
inductive ConflictPolicy
  | ignore
  | update
  deriving DecidableEq

namespace ConflictPolicy

def all : List ConflictPolicy := [ignore, update]

def name : ConflictPolicy → String
  | ignore => "ignore"
  | update => "update"

end ConflictPolicy

/-- The rows of a record: one row, or one for each level of an order book. -/
inductive Expansion
  | scalar
  | bookLevels
  deriving DecidableEq

namespace Expansion

def all : List Expansion := [scalar, bookLevels]

def name : Expansion → String
  | scalar => "scalar"
  | bookLevels => "book_levels"

end Expansion

/-- A column and the record key it is read from. -/
structure Field where
  column : String
  type : FieldType
  required : Bool
  source : Option String
  deriving DecidableEq

namespace Field

/-- The record key: the source if there is a non-empty one, else the column's name. -/
def key (f : Field) : String :=
  match f.source with
  | some s => if s = "" then f.column else s
  | none => f.column

end Field

/-- How records of one kind become rows of their table. -/
structure Schema where
  kind : RecordKind
  table : String
  fields : List Field
  policy : ConflictPolicy
  conflictKeys : List String
  expansion : Expansion
  /-- Rows have no natural key and carry an ingest key instead. -/
  syntheticKey : Bool
  /-- Overwriting a row renews its time of change. -/
  touchUpdated : Bool
  deriving DecidableEq

namespace Schema

/-- The columns an order book row starts with, where a schema has them. -/
def leadColumns : List String := ["symbol", "engine_time"]

def levelColumns : List String := ["side", "price", "size"]

def columns (s : Schema) : List String :=
  let names := s.fields.map (·.column)
  match s.expansion with
  | .scalar => names
  | .bookLevels =>
    names.filter (leadColumns.contains ·) ++ levelColumns ++ names.filter (!leadColumns.contains ·)

def ingestKeyColumn : String := "ingest_key"

def writeColumns (s : Schema) : List String :=
  if s.syntheticKey then s.columns ++ [ingestKeyColumn] else s.columns

def requiredKeys (s : Schema) : List String := (s.fields.filter (·.required)).map (·.key)

end Schema

/-- A field as it is given, with its type not yet looked up. -/
structure FieldDraft where
  column : String
  type : Value
  required : Bool
  source : Option String

/-- A schema as it is given, with its choices not yet looked up. -/
structure SchemaDraft where
  kind : Value
  table : String
  fields : List FieldDraft
  policy : Value
  conflictKeys : List String
  expansion : Value
  syntheticKey : Bool
  touchUpdated : Bool

namespace FieldType

def resolve (v : Value) : Except UnknownMember FieldType :=
  UnknownMember.resolve "FieldType" name all v

end FieldType

namespace SchemaDraft

def resolveFields : List FieldDraft → Except UnknownMember (List Field)
  | [] => .ok []
  | d :: r => do
    let type ← FieldType.resolve d.type
    let rest ← resolveFields r
    return ⟨d.column, type, d.required, d.source⟩ :: rest

/-- Looks the choices up, in the order kind, field types, policy, expansion. -/
def resolve (d : SchemaDraft) : Except UnknownMember Schema := do
  let kind ← UnknownMember.resolve "RecordKind" RecordKind.name RecordKind.all d.kind
  let fields ← resolveFields d.fields
  let policy ← UnknownMember.resolve "ConflictPolicy" ConflictPolicy.name ConflictPolicy.all d.policy
  let expansion ← UnknownMember.resolve "Expansion" Expansion.name Expansion.all d.expansion
  return ⟨kind, d.table, fields, policy, d.conflictKeys, expansion, d.syntheticKey, d.touchUpdated⟩

end SchemaDraft

end FeedLedger
