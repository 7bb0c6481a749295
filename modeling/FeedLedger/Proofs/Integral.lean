import FeedLedger.Proofs.Spelling
import Mathlib.Algebra.Order.Field.Power
import Mathlib.Algebra.Order.Floor.Ring
import Mathlib.Data.Rat.Floor
import Mathlib.Data.Rat.Cast.Order
import Mathlib.Tactic.FieldSimp
import Mathlib.Tactic.Positivity
import Mathlib.Tactic.Ring

namespace FeedLedger

namespace Decimal

theorem natAbs_signed (negative : Bool) (n : Nat) : (signed negative n).natAbs = n := by
  cases negative <;> simp [signed]

theorem signed_mul (negative : Bool) (a b : Nat) : signed negative (a * b) = signed negative a * b := by
  cases negative <;> simp [signed]

/-- A signed number is a multiple of `k` exactly if `k` leaves no remainder. -/
theorem signed_eq_mul_iff {negative : Bool} {c k : Nat} {n : Int} (hk : 0 < k) :
    signed negative c = n * k ↔ c % k = 0 ∧ signed negative (c / k) = n := by
  constructor
  · intro h
    have hdvd : k ∣ (signed negative c).natAbs := Int.natCast_dvd.1 ⟨n, by rw [h, Int.mul_comm]⟩
    rw [natAbs_signed] at hdvd
    obtain ⟨q, rfl⟩ := hdvd
    rw [Nat.mul_comm, signed_mul] at h
    rw [Nat.mul_div_cancel_left q hk]
    exact ⟨Nat.mul_mod_right k q, Int.eq_of_mul_eq_mul_right (by omega) h⟩
  · rintro ⟨hmod, rfl⟩
    rw [← signed_mul, Nat.div_mul_cancel (Nat.dvd_of_mod_eq_zero hmod)]

/-- The number that a decimal is. -/
def value (d : Decimal) : ℚ := (signed d.negative d.coefficient : Int) * 10 ^ d.exponent

theorem abs_value (d : Decimal) : |d.value| = d.coefficient * 10 ^ d.exponent := by
  have hpower : (0 : ℚ) < 10 ^ d.exponent := by positivity
  rw [value, abs_mul, abs_of_pos hpower, ← Int.cast_abs, Int.abs_eq_natAbs, natAbs_signed, Int.cast_natCast]

theorem value_of_exponent_nonneg {d : Decimal} {e : Nat} (he : d.exponent = .ofNat e) :
    d.value = (signed d.negative (d.coefficient * powerOfTen e) : Int) := by
  rw [value, he, signed_mul, Int.ofNat_eq_natCast, zpow_natCast]
  simp [powerOfTen]

theorem value_eq_iff_of_exponent_neg {d : Decimal} {e : Nat} (he : d.exponent = .negSucc e) (n : Int) :
    d.value = n ↔ signed d.negative d.coefficient = n * powerOfTen (e + 1) := by
  have hpos : (10 : ℚ) ^ (e + 1) ≠ 0 := by positivity
  rw [value, he, zpow_negSucc, mul_inv_eq_iff_eq_mul₀ hpos, ← Int.cast_inj (α := ℚ)]
  simp [powerOfTen]

theorem lt_powerOfTen_of_digitCount_le {c k : Nat} (hk : 0 < k) (h : digitCount c ≤ k) : c < powerOfTen k :=
  (Nat.length_toDigits_le_iff (by decide) hk).1 h

/-- A decimal is the integer that its value is. -/
theorem toInt?_eq_some_iff {d : Decimal} {n : Int} : d.toInt? = some n ↔ d.value = n := by
  rw [toInt?]
  by_cases hzero : d.coefficient = 0
  · have hvalue : d.value = 0 := by simp [value, hzero, signed]
    rw [if_pos hzero, hvalue, Option.some.injEq, ← Int.cast_inj (α := ℚ), Int.cast_zero]
  rw [if_neg hzero]
  split
  · rename_i e he
    rw [value_of_exponent_nonneg he, Option.some.injEq, Int.cast_inj]
  · rename_i e he
    have hpower : 0 < powerOfTen (e + 1) := Nat.pow_pos (by decide)
    rw [value_eq_iff_of_exponent_neg he, signed_eq_mul_iff hpower]
    split
    · rename_i hcount
      -- Fewer digits than the exponent takes away leave a fraction.
      have hsmall := lt_powerOfTen_of_digitCount_le e.succ_pos hcount
      rw [Nat.mod_eq_of_lt hsmall]
      simp [hzero]
    · by_cases hmod : d.coefficient % powerOfTen (e + 1) = 0 <;> simp [hmod]

end Decimal

namespace Spelling

/-- The number that is spelled. -/
def Parts.value (p : Parts) : ℚ := (Decimal.signed p.negative p.coefficient : Int) * 10 ^ p.scale

theorem Reads.value_eq {d : Decimal} {p : Parts} (h : Reads d p) : d.value = p.value := by
  obtain ⟨hnegative, hcoefficient, hexponent⟩ := h
  rw [Decimal.value, Parts.value, hnegative, hcoefficient, hexponent]

end Spelling

namespace Value

/-- Doubles, texts and decimals are read as numerals. -/
def IsNumeral : Value → Prop
  | float _ | text _ | decimal _ => True
  | _ => False

/-- The number a value stands for. A truth value stands for none. -/
def number? : Value → Option ℚ
  | int n => some n
  | v => v.toDecimal?.map Decimal.value

theorem toInt?_eq_some_iff (v : Value) (n : Int) :
    v.toInt? = some n ↔ v = .int n ∨ v.IsNumeral ∧ ∃ d, v.toDecimal? = some d ∧ d.value = n := by
  cases v with
  | int k => simp [toInt?, IsNumeral]
  | float x => simp [toInt?, IsNumeral, Option.bind_eq_some_iff, Decimal.toInt?_eq_some_iff]
  | text s => simp [toInt?, IsNumeral, Option.bind_eq_some_iff, Decimal.toInt?_eq_some_iff]
  | decimal d => simp [toInt?, IsNumeral, Option.bind_eq_some_iff, Decimal.toInt?_eq_some_iff]
  | _ => simp [toInt?, toDecimal?, IsNumeral]

theorem toInt?_of_number? {v : Value} {q : ℚ} (h : v.number? = some q) (n : Int) : v.toInt? = some n ↔ q = n := by
  have of_decimal (hnumber : v.number? = v.toDecimal?.map Decimal.value)
      (hint : v.toInt? = v.toDecimal?.bind Decimal.toInt?) : v.toInt? = some n ↔ q = n := by
    rw [hnumber] at h
    obtain ⟨d, hd, rfl⟩ := Option.map_eq_some_iff.1 h
    rw [hint, hd, Option.bind_some, Decimal.toInt?_eq_some_iff]
  cases v with
  | int k =>
    cases h
    simp [toInt?]
  | _ => exact of_decimal rfl rfl

/-- A value that stands for a number is no moment, so a time is made of its integer. -/
theorem toMoment?_of_number? {v : Value} {q : ℚ} (h : v.number? = some q) (unit : Nat) :
    v.toMoment? unit = v.toInt?.bind fun n => Moment.ofEpoch? (n * unit) := by
  cases v with
  | moment m => cases h
  | _ => rfl

end Value

/-- A value gives the integer that it is, or that its decimal is equal to, and none in all other cases. Values that stand
for one number give the same integer and the same times, and none if the number has a fraction; a text stands for the
number that it spells. -/
theorem integers_are_read_exactly :
    (∀ (v : Value) (n : Int), v.toInt? = some n ↔
      v = .int n ∨ v.IsNumeral ∧ ∃ d, v.toDecimal? = some d ∧ d.value = n) ∧
    (∀ (v w : Value) (q : ℚ), v.number? = some q → w.number? = some q →
      v.toInt? = w.toInt? ∧ v.coerce .timestamp = w.coerce .timestamp ∧
        v.coerce .epochSeconds = w.coerce .epochSeconds) ∧
    (∀ (v : Value) (q : ℚ), v.number? = some q → Int.fract q ≠ 0 → v.toInt? = none) ∧
    ∀ (s : String) (p : Spelling.Parts), Spelling.Spells (Spelling.body s) p →
      Decimal.Within p.coefficient p.scale → (Value.text s).number? = some p.value := by
  refine ⟨Value.toInt?_eq_some_iff, fun v w q hv hw => ?_, fun v q hv hq => ?_, fun s p hp hwithin => ?_⟩
  · have hint : v.toInt? = w.toInt? := by
      ext n
      rw [Value.toInt?_of_number? hv, Value.toInt?_of_number? hw]
    have hmoment (unit : Nat) : v.toMoment? unit = w.toMoment? unit := by
      rw [Value.toMoment?_of_number? hv, Value.toMoment?_of_number? hw, hint]
    exact ⟨hint, congrArg (Value.ofOption _) (hmoment 1000), congrArg (Value.ofOption _) (hmoment 1000000)⟩
  · refine Option.eq_none_iff_forall_ne_some.2 fun n hn => hq ?_
    rw [(Value.toInt?_of_number? hv n).1 hn, Int.fract_intCast]
  · have hread : Spelling.Reads ⟨p.negative, p.coefficient, p.scale, hwithin⟩ p := ⟨rfl, rfl, rfl⟩
    have hdecimal := Spelling.toDecimal?_text_eq_some_iff.2 ⟨p, hp, hread⟩
    exact Option.map_eq_some_iff.2 ⟨_, hdecimal, hread.value_eq⟩

/-- A text in exponent form and a decimal with places behind the point that both stand for forty-two, and a text with a
fraction. -/
theorem spellings_of_forty_two_are_one_integer :
    let v := Value.text "4.2e1"
    let w := Value.decimal (.finite ⟨false, 4200, -2, by decide⟩)
    v.number? = some 42 ∧ w.number? = some 42 ∧ v.toInt? = some 42 ∧ v.toInt? = w.toInt? ∧
      v.coerce .timestamp = w.coerce .timestamp ∧ v.coerce .epochSeconds = w.coerce .epochSeconds ∧
      (Value.text "42.5").toInt? = none := by
  intro v w
  have hspells : Spelling.Spells (Spelling.body "4.2e1") ⟨false, [4], [2], false, [1]⟩ := by
    have hparts : Spelling.body "4.2e1" = [] ++ (("4".toList ++ '.' :: "2".toList) ++ 'e' :: ([] ++ "1".toList)) := by
      decide +kernel
    rw [hparts]
    exact .of .absent (.pointed (.cons (by decide) .nil) (.cons (by decide) .nil)) (by simp)
      (.marked (.inl rfl) .absent (.cons (by decide) .nil) (by simp))
  have hv : v.number? = some 42 := by
    have hparts : (⟨false, [4], [2], false, [1]⟩ : Spelling.Parts).coefficient = 42 ∧
      (⟨false, [4], [2], false, [1]⟩ : Spelling.Parts).scale = 0 := by decide
    rw [integers_are_read_exactly.2.2.2 "4.2e1" _ hspells (by decide), Spelling.Parts.value, hparts.1, hparts.2]
    norm_num [Decimal.signed]
  have hw : w.number? = some 42 := by
    change some (Decimal.value _) = some 42
    norm_num [Decimal.value, Decimal.signed]
  have hfraction : (Value.text "42.5").number? = some (85 / 2) := by
    have hd : (Value.text "42.5").toDecimal? = some ⟨false, 425, -1, by decide⟩ := by decide +kernel
    refine Option.map_eq_some_iff.2 ⟨_, hd, ?_⟩
    norm_num [Decimal.value, Decimal.signed]
  obtain ⟨hint, htimestamp, hepoch⟩ := integers_are_read_exactly.2.1 v w 42 hv hw
  refine ⟨hv, hw, ?_, hint, htimestamp, hepoch, integers_are_read_exactly.2.2.1 _ _ hfraction ?_⟩
  · rw [hint]
    exact (integers_are_read_exactly.1 w 42).2 (.inr ⟨trivial, _, rfl, by norm_num [Decimal.value, Decimal.signed]⟩)
  · norm_num [Int.fract]

end FeedLedger
