import FeedLedger.Table.Basic
import FeedLedger.Text.Blank

/-!
Names in statements. A name stands as it is if it is a lower-case word of letters, digits, underscores
and dollar signs that begins with none of the digits and dollar signs and is not reserved; otherwise it stands
between quotation marks. The dotless i and the long s count as letters, since they are other forms of letters, and
a line feed at the end of a word is overlooked.
-/

namespace FeedLedger.Identifier

open Text

def commonReserved : List String :=
  ["all", "analyze", "and", "as", "asc", "between", "case", "cast", "check", "collate", "column",
    "constraint", "create", "cross", "current_date", "current_time", "current_timestamp", "default",
    "deferrable", "desc", "distinct", "else", "end", "except", "false", "for", "foreign", "from", "full",
    "group", "having", "in", "initially", "inner", "intersect", "into", "is", "isnull", "join", "left", "like",
    "limit", "natural", "not", "notnull", "null", "offset", "on", "or", "order", "outer", "primary",
    "references", "right", "select", "table", "then", "to", "true", "union", "unique", "using", "when", "where"]

def ownReserved : Dialect → List String
  | .sqlite =>
    ["add", "after", "alter", "attach", "autoincrement", "before", "begin", "by", "cascade", "commit",
      "conflict", "database", "deferred", "delete", "detach", "drop", "each", "escape", "exclusive",
      "exists", "explain", "fail", "glob", "if", "ignore", "immediate", "index", "indexed", "insert",
      "instead", "key", "match", "of", "plan", "pragma", "query", "raise", "reindex", "rename", "replace",
      "restrict", "rollback", "row", "set", "temp", "temporary", "transaction", "trigger", "update",
      "vacuum", "values", "view", "virtual"]
  | .postgresql =>
    ["analyse", "any", "array", "asymmetric", "authorization", "binary", "both", "current_catalog",
      "current_role", "current_schema", "current_user", "do", "fetch", "freeze", "grant", "ilike", "leading",
      "localtime", "localtimestamp", "new", "of", "off", "old", "only", "overlaps", "over", "placing",
      "returning", "session_user", "similar", "some", "symmetric", "trailing", "user", "variadic",
      "verbose", "window", "with"]

def isReserved (dialect : Dialect) (name : String) : Bool :=
  commonReserved.contains name || (ownReserved dialect).contains name

/-- Characters of a name that needs no marks. -/
def isPlain (c : Char) : Bool :=
  c.isLower || c.isDigit || c = '_' || c = '$' || c = '\u0131' || c = '\u017f'

def standsAlone (dialect : Dialect) (name : String) : Bool :=
  let word := withoutLineFeed name.toList
  match word with
  | [] => false
  | c :: _ => !(c.isDigit || c = '$') && word.all isPlain && !isReserved dialect name

/-- A character between quotation marks. A server that fills values in behind percent signs needs two for one. -/
def markedChar (dialect : Dialect) (c : Char) : List Char :=
  if c = '"' then ['"', '"']
  else if c = '%' ∧ dialect = .postgresql then ['%', '%']
  else [c]

/-- A name as it stands in a statement. -/
def written (dialect : Dialect) (name : String) : String :=
  if standsAlone dialect name then name
  else "\"" ++ String.ofList (name.toList.flatMap (markedChar dialect)) ++ "\""

/-- The name that is read where a name is written: what stands alone ends before a line feed. -/
def read (dialect : Dialect) (name : String) : String :=
  if standsAlone dialect name then String.ofList (withoutLineFeed name.toList) else name

/-- Names behind one another, with a comma and a space between them. -/
def list (dialect : Dialect) (names : List String) : String :=
  ", ".intercalate (names.map (written dialect))

end FeedLedger.Identifier
