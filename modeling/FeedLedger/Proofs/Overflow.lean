import FeedLedger.Coercion
import FeedLedger.Proofs.Nearest

namespace FeedLedger

namespace Value

/-- A value that is no double, and whose decimal reaches the bound from which on numbers are rounded to an infinity. -/
def Overflows (v : Value) : Prop :=
  (∀ x, v ≠ .float x) ∧ ∃ d, v.toDecimal? = some d ∧ Binary64.overflow ≤ |d.value|

theorem coerce_float_float (x : Binary64) : (float x).coerce .float = if x.isFinite then .float x else .null := by
  simp only [coerce, toDouble?]
  split <;> rfl

theorem coerce_float_of_decimal {v : Value} (hv : ∀ x, v ≠ .float x) :
    v.coerce .float = .ofOption .float (v.toDecimal?.map Binary64.ofDecimal) := by
  cases v with
  | float x => exact absurd rfl (hv x)
  | _ => rfl

/-- What a value that is no double becomes. -/
theorem coerce_float_cases {v : Value} (hv : ∀ x, v ≠ .float x) :
    (v.toDecimal? = none ∧ v.coerce .float = .null) ∨
      ∃ d x, v.toDecimal? = some d ∧ v.coerce .float = .float x ∧ Binary64.Rounded d.negative |d.value| x := by
  rw [coerce_float_of_decimal hv]
  cases hd : v.toDecimal? with
  | none => exact .inl ⟨rfl, rfl⟩
  | some d => exact .inr ⟨d, _, rfl, rfl, Binary64.rounded_ofDecimal d⟩

/-- A value that does not overflow becomes a finite double or nothing. -/
theorem coerce_float_of_not_overflows {v : Value} (h : ¬v.Overflows) :
    v.coerce .float = .null ∨ ∃ x, v.coerce .float = .float x ∧ x.isFinite = true := by
  by_cases hfloat : ∃ x, v = .float x
  · obtain ⟨x, rfl⟩ := hfloat
    rw [coerce_float_float]
    cases hx : x.isFinite with
    | true => exact .inr ⟨x, rfl, hx⟩
    | false => exact .inl rfl
  · have hv : ∀ x, v ≠ .float x := fun x hx => hfloat ⟨x, hx⟩
    rcases coerce_float_cases hv with ⟨-, hnull⟩ | ⟨d, x, hd, hx, ⟨hlarge, -⟩ | ⟨-, m, e, rfl, -⟩⟩
    · exact .inl hnull
    · exact absurd ⟨hv, d, hd, hlarge⟩ h
    · exact .inr ⟨_, hx, rfl⟩

/-- A value that overflows becomes an infinity. -/
theorem coerce_float_of_overflows {v : Value} (h : v.Overflows) :
    ∃ d, v.toDecimal? = some d ∧ v.coerce .float = .float (.infinite d.negative) := by
  obtain ⟨hv, d, hd, hlarge⟩ := h
  rcases coerce_float_cases hv with ⟨hnone, -⟩ | ⟨d', x, hd', hx, hrounded⟩
  · rw [hd] at hnone
    cases hnone
  · rw [hd] at hd'
    cases hd'
    rcases hrounded with ⟨-, rfl⟩ | ⟨hsmall, -⟩
    · exact ⟨d, hd, hx⟩
    · exact absurd hlarge (not_le.2 hsmall)

end Value

/-- A double is passed on if it is finite. Every other value becomes the double its decimal is rounded to, if it has
one: a finite double below the bound and an infinity from it on. So what comes out is finite or nothing, and
unchanged by a second conversion, for all values but those that overflow. -/
theorem doubles_are_finite_below_overflow (v : Value) :
    (∀ x, v = .float x → v.coerce .float = if x.isFinite then .float x else .null) ∧
    ((∀ x, v ≠ .float x) → v.toDecimal? = none → v.coerce .float = .null) ∧
    (∀ d, (∀ x, v ≠ .float x) → v.toDecimal? = some d →
      ∃ x, v.coerce .float = .float x ∧ Binary64.Rounded d.negative |d.value| x) ∧
    ((v.coerce .float = .null ∨ ∃ x, v.coerce .float = .float x ∧ x.isFinite = true) ↔ ¬v.Overflows) ∧
    ((v.coerce .float).coerce .float = v.coerce .float ↔ ¬v.Overflows) := by
  have hinfinite (negative : Bool) : (Binary64.infinite negative).isFinite = false := rfl
  refine ⟨?_, fun hv hnone => ?_, fun d hv hd => ?_, ⟨fun h hover => ?_, Value.coerce_float_of_not_overflows⟩,
    ⟨fun h hover => ?_, fun h => ?_⟩⟩
  · rintro x rfl
    exact Value.coerce_float_float x
  · rw [Value.coerce_float_of_decimal hv, hnone]
    rfl
  · rcases Value.coerce_float_cases hv with ⟨hnone, -⟩ | ⟨d', x, hd', hx, hrounded⟩
    · rw [hd] at hnone
      cases hnone
    · rw [hd] at hd'
      cases hd'
      exact ⟨x, hx, hrounded⟩
  · obtain ⟨d, -, hx⟩ := Value.coerce_float_of_overflows hover
    rw [hx] at h
    rcases h with hnull | ⟨x, hsame, hfinite⟩
    · cases hnull
    · cases hsame
      cases hfinite
  · obtain ⟨d, -, hx⟩ := Value.coerce_float_of_overflows hover
    rw [hx, Value.coerce_float_float, hinfinite] at h
    cases h
  · rcases Value.coerce_float_of_not_overflows h with hnull | ⟨x, hx, hfinite⟩
    · rw [hnull, Value.coerce_null]
    · rw [hx, Value.coerce_float_float, if_pos hfinite]

/-- The largest double, as a text, is read as a double and keeps its value. -/
theorem largest_double_is_read :
    let v := Value.text "1.7976931348623157e308"
    ¬v.Overflows ∧ (∃ d x, v.toDecimal? = some d ∧ v.coerce .float = .float x ∧
      Binary64.Rounded d.negative |d.value| x) ∧ (v.coerce .float).coerce .float = v.coerce .float := by
  intro v
  have hv : ∀ x, v ≠ .float x := by simp [v]
  have hd : v.toDecimal? = some ⟨false, 17976931348623157, 292, by decide +kernel⟩ := by decide +kernel
  have hsmall : ¬v.Overflows := by
    rintro ⟨-, d, hd', hlarge⟩
    rw [hd] at hd'
    cases hd'
    have hnat : 17976931348623157 * 10 ^ 292 < 18014398509481983 * 2 ^ 970 := by decide +kernel
    have hcast : (17976931348623157 : ℚ) * 10 ^ 292 < 18014398509481983 * 2 ^ 970 := by exact_mod_cast hnat
    rw [Decimal.abs_value, Binary64.overflow, zpow_ofNat] at hlarge
    push_cast at hlarge
    generalize (10 : ℚ) ^ 292 = a at *
    generalize (2 : ℚ) ^ 970 = b at *
    linarith
  obtain ⟨-, -, hrounded, -, hagain⟩ := doubles_are_finite_below_overflow v
  obtain ⟨x, hx, hnear⟩ := hrounded _ hv hd
  exact ⟨hsmall, ⟨_, x, hd, hx, hnear⟩, hagain.2 hsmall⟩

/-- A text with a number above all doubles becomes an infinity, which a second conversion refuses. -/
theorem large_number_becomes_infinite :
    ¬∀ v : Value, (v.coerce .float = .null ∨ ∃ x, v.coerce .float = .float x ∧ x.isFinite = true) ∧
      (v.coerce .float).coerce .float = v.coerce .float := by
  intro h
  have hinfinite : (Value.text "1e400").coerce .float = .float (.infinite false) :=
    congrArg (Value.ofOption .float)
      (by decide +kernel : (Value.text "1e400").toDouble? = some (Binary64.infinite false))
  rcases (h (.text "1e400")).1 with hnull | ⟨x, hx, hfinite⟩
  · rw [hinfinite] at hnull
    cases hnull
  · rw [hinfinite] at hx
    cases hx
    cases hfinite

end FeedLedger
