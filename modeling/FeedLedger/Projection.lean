import FeedLedger.Validation

namespace FeedLedger

/-- The sides of an order book, in the order their levels are written. -/
inductive BookSide
  | bid
  | ask
  deriving DecidableEq

namespace BookSide

def tag : BookSide → String
  | bid => "bid"
  | ask => "ask"

def key : BookSide → String
  | bid => "bids"
  | ask => "asks"

end BookSide

structure BookLevel where
  price : Decimal
  size : Decimal
  deriving DecidableEq

namespace BookLevel

/-- Price and size of a level: the first two of at least two items, if both are decimals. -/
def ofValue? (v : Value) : Option BookLevel :=
  match v.items? with
  | some (price :: size :: _) =>
    match price.toDecimal?, size.toDecimal? with
    | some p, some s => some ⟨p, s⟩
    | _, _ => none
  | _ => none

/-- The usable levels of a side; a side that is no list has none. -/
def ofSide (v : Value) : List BookLevel := (v.items?.getD []).filterMap ofValue?

end BookLevel

namespace ValidRecord

/-- The cells of a row, in column order. -/
def rowOf (v : ValidRecord) (values : List (String × Value)) : List Value :=
  v.schema.columns.map fun c => (Keyed.get? c values).getD .null

/-- The values of one book level: those of the record, with side, price and size set. -/
def levelValues (v : ValidRecord) (side : BookSide) (level : BookLevel) : List (String × Value) :=
  Keyed.put "size" (.decimal (.finite level.size)) <|
    Keyed.put "price" (.decimal (.finite level.price)) <|
      Keyed.put "side" (.text side.tag) v.values

def sideRows (v : ValidRecord) (side : BookSide) : List (List Value) :=
  (BookLevel.ofSide (v.source.value side.key)).map fun level => v.rowOf (v.levelValues side level)

/-- The rows of a record: one of its fields, or one for each usable level, bids before asks. -/
def rows (v : ValidRecord) : List (List Value) :=
  match v.schema.expansion with
  | .scalar => [v.rowOf v.values]
  | .bookLevels => v.sideRows .bid ++ v.sideRows .ask

@[simp] theorem length_rowOf (v : ValidRecord) (values : List (String × Value)) :
    (v.rowOf values).length = v.schema.columns.length := by
  simp [rowOf]

theorem length_of_mem_rows {v : ValidRecord} {row : List Value} (h : row ∈ v.rows) :
    row.length = v.schema.columns.length := by
  unfold rows sideRows at h
  split at h
  · simp only [List.mem_singleton] at h; simp [h]
  · simp only [List.mem_append, List.mem_map] at h
    obtain ⟨_, _, rfl⟩ | ⟨_, _, rfl⟩ := h <;> simp

end ValidRecord

end FeedLedger
