import FeedLedger.Coercion
import FeedLedger.Store.Cell
import Mathlib.Tactic.Common

namespace FeedLedger

namespace Binary64

theorem nearest_ne_nan (negative : Bool) (num den : Nat) : nearest negative num den ≠ .nan := by
  simp only [nearest]
  split <;> split <;> simp

theorem ofDecimal_ne_nan (d : Decimal) : ofDecimal d ≠ .nan := by
  simp only [ofDecimal, ofScientific, zero]
  split
  · simp
  split
  · simp
  split
  · simp
  split <;> exact nearest_ne_nan _ _ _

end Binary64

namespace ColumnType

/-- The values that fields hand to a column of this type, null aside. -/
def Suits : ColumnType → Value → Prop
  | text, .text _ | shortText _, .text _ => True
  | integer, .int _ | bigInteger, .int _ => True
  | timestamp, .moment _ => True
  | price, .decimal (.finite _) => True
  | double, .float x => x ≠ .nan
  | boolean, .bool _ => True
  | _, _ => False

/-- Whether the values of a field suit a column. -/
def takes : ColumnType → FieldType → Bool
  | text, .string | shortText _, .string => true
  | integer, .integer | bigInteger, .integer => true
  | timestamp, .timestamp | timestamp, .epochSeconds => true
  | price, .decimal => true
  | double, .float => true
  | boolean, .boolean => true
  | _, _ => false

variable {type : ColumnType}

theorem suits_ofOption {α : Type} {f : α → Value} {o : Option α} (hf : ∀ a ∈ o, type.Suits (f a)) :
    (Value.ofOption f o).isNull = true ∨ type.Suits (Value.ofOption f o) := by
  cases o with
  | none => exact .inl rfl
  | some a => exact .inr (hf a rfl)

theorem suits_text (x : String) (h : type.takes .string = true) : type.Suits (.text x) := by
  cases type <;> first | exact trivial | exact Bool.noConfusion h

theorem suits_finite (d : Decimal) (h : type.takes .decimal = true) :
    type.Suits (.decimal (.finite d)) := by
  cases type <;> first | exact trivial | exact Bool.noConfusion h

private theorem toDouble?_ne_nan {v : Value} {x : Binary64} (h : v.toDouble? = some x) : x ≠ .nan := by
  simp only [Value.toDouble?] at h
  split at h
  · split at h
    · rename_i hfinite
      rintro rfl
      rw [Option.some.inj h] at hfinite
      cases hfinite
    · simp at h
  · obtain ⟨d, -, rfl⟩ := Option.map_eq_some_iff.1 h
    exact Binary64.ofDecimal_ne_nan d

/-- A converted value suits every column that takes the field. -/
theorem suits_coerce {field : FieldType} (h : type.takes field = true) (v : Value) :
    (v.coerce field).isNull = true ∨ type.Suits (v.coerce field) := by
  cases field <;> cases type <;> first
    | exact Bool.noConfusion h
    | exact suits_ofOption fun x hx => toDouble?_ne_nan hx
    | exact suits_ofOption fun _ _ => trivial

/-- A value that suits a column has a cell that is no null, unless it is an integer beyond 64 bits. -/
theorem bind_suits {v : Value} (h : type.Suits v) :
    (∃ n, v = .int n ∧ ¬Binding.Fits n ∧ type.bind v = .tooLarge) ∨
      (∃ c, type.bind v = .cell c ∧ c ≠ .null ∧ ∀ n, v = .int n → Binding.Fits n) := by
  have of_int (n : Int) :
      (∃ m, Value.int n = .int m ∧ ¬Binding.Fits m ∧ Binding.fitting n .integer = .tooLarge) ∨
        (∃ c, Binding.fitting n .integer = .cell c ∧ c ≠ .null ∧ ∀ m, Value.int n = .int m → Binding.Fits m) := by
    simp only [Binding.fitting]
    by_cases hn : Binding.Fits n
    · rw [if_pos hn]
      exact .inr ⟨.integer n, rfl, by simp, fun m hm => by cases hm; exact hn⟩
    · rw [if_neg hn]
      exact .inl ⟨n, rfl, hn, rfl⟩
  have of_double {x : Binary64} (hx : x ≠ .nan) : Binding.double x ≠ .null := by
    cases x with
    | nan => exact absurd rfl hx
    | _ => simp [Binding.double]
  cases type <;> cases v <;> try exact False.elim h
  case integer.int n => exact of_int n
  case bigInteger.int n => exact of_int n
  case text.text s => exact .inr ⟨.text s, rfl, by simp, by simp⟩
  case shortText.text s => exact .inr ⟨.text s, rfl, by simp, by simp⟩
  case timestamp.moment m => exact .inr ⟨.wall m.wall, rfl, by simp, by simp⟩
  case double.float x => exact .inr ⟨Binding.double x, rfl, of_double h, by simp⟩
  case boolean.bool b => exact .inr ⟨.boolean b, rfl, by simp, by simp⟩
  case price.decimal d =>
    cases d with
    | finite d => exact .inr ⟨_, rfl, of_double (Binary64.ofDecimal_ne_nan d), by simp⟩
    | _ => exact False.elim h

end ColumnType

end FeedLedger
