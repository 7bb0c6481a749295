import FeedLedger.Proofs.Declared
import Mathlib.Data.List.Forall2

namespace FeedLedger

namespace BookLevel

/-- A value that gives a level: a list or tuple whose first two items are decimals, its price and its size. -/
inductive Given : Value → BookLevel → Prop
  | list {price size : Value} {rest : List Value} {level : BookLevel} (hp : price.toDecimal? = some level.price)
      (hs : size.toDecimal? = some level.size) : Given (.list (price :: size :: rest)) level
  | tuple {price size : Value} {rest : List Value} {level : BookLevel} (hp : price.toDecimal? = some level.price)
      (hs : size.toDecimal? = some level.size) : Given (.tuple (price :: size :: rest)) level

/-- The levels given by the items of a side, in their order; items that give none are passed over. -/
inductive Picked : List Value → List BookLevel → Prop
  | nil : Picked [] []
  | usable {item : Value} {level : BookLevel} {items : List Value} {levels : List BookLevel} (h : Given item level)
      (hrest : Picked items levels) : Picked (item :: items) (level :: levels)
  | broken {item : Value} {items : List Value} {levels : List BookLevel} (h : ∀ level, ¬ Given item level)
      (hrest : Picked items levels) : Picked (item :: items) levels

/-- The levels of a side; a side that is neither list nor tuple has none. -/
inductive OfSide : Value → List BookLevel → Prop
  | list {items : List Value} {levels : List BookLevel} (h : Picked items levels) : OfSide (.list items) levels
  | tuple {items : List Value} {levels : List BookLevel} (h : Picked items levels) : OfSide (.tuple items) levels
  | other {v : Value} (h : v.items? = none) : OfSide v []

theorem given_iff {v : Value} {level : BookLevel} : Given v level ↔ ofValue? v = some level := by
  constructor
  · rintro (⟨hp, hs⟩ | ⟨hp, hs⟩) <;> simp only [ofValue?, Value.items?, hp, hs]
  · intro h
    unfold ofValue? at h
    split at h
    case h_2 => cases h
    rename_i price size rest hitems
    split at h
    case h_2 => cases h
    rename_i p s hp hs
    cases h
    cases v with
    | list items =>
      cases hitems
      exact .list hp hs
    | tuple items =>
      cases hitems
      exact .tuple hp hs
    | _ => cases hitems

theorem picked_iff {items : List Value} {levels : List BookLevel} :
    Picked items levels ↔ levels = items.filterMap ofValue? := by
  constructor
  · intro h
    induction h with
    | nil => rfl
    | usable h _ ih => rw [List.filterMap_cons_some (given_iff.1 h), ih]
    | broken h _ ih =>
      rename_i item _ _ _
      have hnone : ofValue? item = none := by
        rw [Option.eq_none_iff_forall_ne_some]
        exact fun level hlevel => h level (given_iff.2 hlevel)
      rw [List.filterMap_cons_none hnone, ih]
  · rintro rfl
    induction items with
    | nil => exact .nil
    | cons item rest ih =>
      cases hitem : ofValue? item with
      | some level =>
        rw [List.filterMap_cons_some hitem]
        exact .usable (given_iff.2 hitem) ih
      | none =>
        rw [List.filterMap_cons_none hitem]
        apply Picked.broken _ ih
        intro level hlevel
        rw [given_iff.1 hlevel] at hitem
        cases hitem

theorem ofSide_iff {v : Value} {levels : List BookLevel} : OfSide v levels ↔ levels = ofSide v := by
  constructor
  · rintro (h | h | h)
    · exact picked_iff.1 h
    · exact picked_iff.1 h
    · simp only [ofSide, h, Option.getD_none, List.filterMap_nil]
  · rintro rfl
    cases v with
    | list items => exact .list (picked_iff.2 rfl)
    | tuple items => exact .tuple (picked_iff.2 rfl)
    | _ => exact .other rfl

end BookLevel

namespace Record

variable {r : Record} {s : Schema} {v : ValidRecord} {side : BookSide} {level : BookLevel}

/-- What stands under a column in the row of a level: its side, price or size, or else the value of the record's last
field for that column. -/
inductive ShowsCell (r : Record) (s : Schema) (side : BookSide) (level : BookLevel) : String → Value → Prop
  | side : ShowsCell r s side level "side" (.text side.tag)
  | price : ShowsCell r s side level "price" (.decimal (.finite level.price))
  | size : ShowsCell r s side level "size" (.decimal (.finite level.size))
  | field {column : String} {f : Field} (hc : column ∉ Schema.levelColumns) (hf : s.fieldOf? column = some f) :
      ShowsCell r s side level column ((r.value f.key).coerce f.type)

theorem showsCell_of_cell? {column : String} {x : Value} (h : r.cell? s (some (side, level)) column = some x) :
    ShowsCell r s side level column x := by
  simp only [cell?, Option.bind_some, BookLevel.cell?] at h
  split at h
  · rename_i hside
    cases h
    rw [hside]
    exact .side
  split at h
  · rename_i hprice
    cases h
    rw [hprice]
    exact .price
  split at h
  · rename_i hsize
    cases h
    rw [hsize]
    exact .size
  · rename_i hside hprice hsize
    have hc : column ∉ Schema.levelColumns := by
      simp [Schema.levelColumns, hside, hprice, hsize]
    rw [Option.none_or] at h
    obtain ⟨f, hf, rfl⟩ := Option.map_eq_some_iff.1 h
    exact .field hc hf

theorem levels_of_book (r : Record) (h : s.expansion = .bookLevels) :
    r.levels s = ((BookLevel.ofSide (r.value "bids")).map (BookSide.bid, ·) ++
      (BookLevel.ofSide (r.value "asks")).map (BookSide.ask, ·)).map some := by
  simp only [levels, h, BookSide.key, List.map_append, List.map_map, Function.comp_def]

end Record

/-- The columns of a book are those of levels and those of its fields, in another order. -/
theorem Schema.columns_perm {s : Schema} (h : s.expansion = .bookLevels) :
    s.columns.Perm (levelColumns ++ s.fields.map (·.column)) := by
  have hfields := List.filter_append_perm (leadColumns.contains ·) (s.fields.map (·.column))
  simp only [columns, h]
  refine (List.perm_append_comm.append_right _).trans ?_
  rw [List.append_assoc]
  exact hfields.append_left _

namespace Record

variable {r : Record} {s : Schema} {v : ValidRecord}

theorem exists_cell?_of_book (hs : s.expansion = .bookLevels) (side : BookSide) (level : BookLevel) {column : String}
    (hc : column ∈ s.columns) : ∃ x, r.cell? s (some (side, level)) column = some x :=
  cell?_isSome (iff_of_true rfl hs) hc

/-- A valid book has one row for each level of its bids and then of its asks. A row is made without a look-up that fails,
and has one cell for each column, which shows the level or the record's own value. -/
theorem book_has_a_row_for_each_level (hs : s.expansion = .bookLevels) (hv : r.validate (some s) = .ok v) :
    s.columns.Perm (Schema.levelColumns ++ s.fields.map (·.column)) ∧
    (∀ side level, s.columns.map (Keyed.get? · (v.levelValues side level)) =
      (v.rowOf (v.levelValues side level)).map some) ∧
    ∃ bids asks, BookLevel.OfSide (r.value "bids") bids ∧ BookLevel.OfSide (r.value "asks") asks ∧
      List.Forall₂ (fun l row => List.Forall₂ (ShowsCell r s l.1 l.2) s.columns row)
        (bids.map (BookSide.bid, ·) ++ asks.map (BookSide.ask, ·)) v.rows := by
  refine ⟨Schema.columns_perm hs, ?lookups, ?rows⟩
  case lookups =>
    intro side level
    have hrow : v.rowOf (v.levelValues side level) =
        s.columns.map fun c => (Keyed.get? c (v.levelValues side level)).getD .null := by
      rw [ValidRecord.rowOf, schema_of_validate hv]
    rw [hrow, List.map_map]
    apply List.map_congr_left
    intro column hc
    obtain ⟨x, hx⟩ := exists_cell?_of_book (r := r) hs side level hc
    obtain ⟨-, rfl⟩ := validate_eq_ok_iff.1 hv
    rw [Function.comp_apply, get?_levelValues_eq, hx, Option.getD_some]
  case rows =>
    refine ⟨_, _, BookLevel.ofSide_iff.2 rfl, BookLevel.ofSide_iff.2 rfl, ?_⟩
    rw [rows_of_validate hv, levels_of_book r hs, List.map_map, List.forall₂_map_right_iff, List.forall₂_same]
    rintro ⟨side, level⟩ -
    simp only [Function.comp_apply]
    rw [List.forall₂_map_right_iff, List.forall₂_same]
    intro column hc
    obtain ⟨x, hx⟩ := exists_cell?_of_book (r := r) hs side level hc
    rw [hx, Option.getD_some]
    exact showsCell_of_cell? hx

/-- A book whose fields are in an order of their own, one of them twice and one under the name of a price. -/
def shuffledBook : Schema where
  kind := .orderBook
  table := "books"
  fields := [⟨"venue", .string, true, none⟩, ⟨"engine_time", .integer, true, some "t"⟩,
    ⟨"price", .string, false, some "close"⟩, ⟨"venue", .integer, false, some "code"⟩, ⟨"symbol", .string, true, none⟩]
  policy := .ignore
  conflictKeys := []
  expansion := .bookLevels
  syntheticKey := true
  touchUpdated := false

/-- Levels among items that are none. -/
def brokenBook : Record where
  table := "books"
  data := [("venue", .text "X"), ("t", .text "12"), ("close", .int 9), ("code", .int 3), ("symbol", .text "A"),
    ("bids", .tuple [.list [.int 5, .text "2", .null], .list [.text "5"], .text "52", .tuple [.int 4, .bool true],
      .tuple [.text "4", .int 1]]),
    ("asks", .list [.null, .list [.int 6, .int 1], .list [.text "six", .int 1]])]

theorem book_has_a_row_for_each_level_among_broken_ones :
    ∃ v, brokenBook.validate (some shuffledBook) = .ok v ∧
      shuffledBook.columns = ["engine_time", "symbol", "side", "price", "size", "venue", "price", "venue"] ∧
      v.rows.length = 3 ∧
      ∃ bids asks, BookLevel.OfSide (brokenBook.value "bids") bids ∧ BookLevel.OfSide (brokenBook.value "asks") asks ∧
        List.Forall₂ (fun l row => List.Forall₂ (ShowsCell brokenBook shuffledBook l.1 l.2) shuffledBook.columns row)
          (bids.map (BookSide.bid, ·) ++ asks.map (BookSide.ask, ·)) v.rows := by
  have hv : brokenBook.validate (some shuffledBook) =
      .ok ⟨shuffledBook, brokenBook.fieldValues shuffledBook, brokenBook⟩ :=
    validate_eq_ok_iff.2 ⟨by decide +kernel, rfl⟩
  exact ⟨_, hv, by decide +kernel, by decide +kernel, (book_has_a_row_for_each_level rfl hv).2.2⟩

end Record

end FeedLedger
