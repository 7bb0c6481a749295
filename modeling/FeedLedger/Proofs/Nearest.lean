import FeedLedger.Proofs.Integral
import Mathlib.Tactic.Linarith

/-!
Rounding to doubles. A positive number is counted in units of the last place that a double of its size has, and the
count is rounded to an integer. The result is a finite double, no more than half a unit away, as long as the number lies
below the middle between the largest double and the next power of two; from there on it is an infinity.
-/

namespace FeedLedger

namespace Binary64

/-! ### Scaling by powers of two -/

theorem scaled_spec (n : Nat) (e : Int) : 0 < (scaled n e).2 ∧ ((scaled n e).1 : ℚ) / (scaled n e).2 = n * 2 ^ e := by
  cases e with
  | ofNat e => simp [scaled, powerOfTwo]
  | negSucc e =>
    refine ⟨Nat.pow_pos (by decide), ?_⟩
    rw [zpow_negSucc]
    simp [scaled, powerOfTwo, div_eq_mul_inv]

/-- A fraction counted in units of `2 ^ e`. -/
theorem scaled_fraction (num den : Nat) (e : Int) :
    ((scaled num (-e)).1 : ℚ) / (den * (scaled num (-e)).2 : Nat) = num / den / 2 ^ e := by
  rw [Nat.cast_mul, mul_comm, ← div_div, (scaled_spec num (-e)).2, zpow_neg]
  ring

/-- The exponent of the leading binary digit of a fraction. -/
theorem floorLog2_spec {num den : Nat} (hnum : 0 < num) (hden : 0 < den) :
    (2 : ℚ) ^ floorLog2 num den ≤ num / den ∧ (num : ℚ) / den < 2 ^ (floorLog2 num den + 1) := by
  have hdenQ : (0 : ℚ) < den := by exact_mod_cast hden
  obtain ⟨e, he⟩ : ∃ e : Int, (num.log2 : Int) - den.log2 = e := ⟨_, rfl⟩
  -- The quotient of the leading digits is off by at most one place.
  have hbelow : (2 : ℚ) ^ (e - 1) < num / den := by
    have hlow : (2 : ℚ) ^ num.log2 ≤ num := by exact_mod_cast Nat.log2_self_le hnum.ne'
    have hhigh : (den : ℚ) < 2 ^ (den.log2 + 1) := by exact_mod_cast Nat.lt_log2_self
    rw [lt_div_iff₀ hdenQ]
    calc (2 : ℚ) ^ (e - 1) * den < 2 ^ (e - 1) * 2 ^ (den.log2 + 1) := by gcongr
      _ = 2 ^ num.log2 := by
        rw [← zpow_natCast, ← zpow_natCast, ← zpow_add₀ (by norm_num)]
        congr 1
        push_cast
        omega
      _ ≤ num := hlow
  have habove : (num : ℚ) / den < 2 ^ (e + 1) := by
    have hlow : (2 : ℚ) ^ den.log2 ≤ den := by exact_mod_cast Nat.log2_self_le hden.ne'
    have hhigh : (num : ℚ) < 2 ^ (num.log2 + 1) := by exact_mod_cast Nat.lt_log2_self
    rw [div_lt_iff₀ hdenQ]
    calc (num : ℚ) < 2 ^ (num.log2 + 1) := hhigh
      _ = 2 ^ (e + 1) * 2 ^ den.log2 := by
        rw [← zpow_natCast, ← zpow_natCast, ← zpow_add₀ (by norm_num)]
        congr 1
        push_cast
        omega
      _ ≤ 2 ^ (e + 1) * den := by gcongr
  have htest : den * (scaled num (-e)).2 ≤ (scaled num (-e)).1 ↔ (2 : ℚ) ^ e ≤ num / den := by
    have hpos : (0 : ℚ) < (den * (scaled num (-e)).2 : Nat) := by
      exact_mod_cast Nat.mul_pos hden (scaled_spec num (-e)).1
    have htwo : (0 : ℚ) < 2 ^ e := by positivity
    rw [← one_le_div htwo, ← scaled_fraction, one_le_div hpos, Nat.cast_le]
  simp only [floorLog2, he]
  split
  · rename_i h
    exact ⟨htest.1 h, habove⟩
  · rename_i h
    refine ⟨hbelow.le, ?_⟩
    rw [Int.sub_add_cancel]
    exact not_le.1 (htest.not.1 h)

/-! ### Rounding to an integer -/

/-- The quotient is no more than a half away. -/
theorem roundHalfEven_error {n d : Nat} (hd : 0 < d) :
    2 * n ≤ (2 * roundHalfEven n d + 1) * d ∧ 2 * roundHalfEven n d * d ≤ 2 * n + d := by
  have hsplit : n / d * d + n % d = n := Nat.div_add_mod' n d
  have hrest : n % d < d := Nat.mod_lt n hd
  have hbelow (q : Nat) : (2 * q + 1) * d = 2 * (q * d) + d ∧ 2 * q * d = 2 * (q * d) := ⟨by ring, by ring⟩
  have habove : (n / d + 1) * d = n / d * d + d := Nat.succ_mul _ _
  rw [(hbelow _).1, (hbelow _).2]
  simp only [roundHalfEven]
  split
  · omega
  split
  · omega
  · -- In the middle either neighbour is a half away.
    rcases Nat.mod_two_eq_zero_or_one (n / d) with heven | hodd
    · rw [heven, Nat.add_zero]
      omega
    · rw [hodd]
      omega

theorem abs_roundHalfEven_sub {n d : Nat} (hd : 0 < d) : |(roundHalfEven n d : ℚ) - n / d| ≤ 2⁻¹ := by
  obtain ⟨hup, hdown⟩ := roundHalfEven_error (n := n) hd
  have hpos : (0 : ℚ) < d := by exact_mod_cast hd
  have hupQ : (2 : ℚ) * n ≤ (2 * roundHalfEven n d + 1) * d := by exact_mod_cast hup
  have hdownQ : (2 : ℚ) * roundHalfEven n d * d ≤ 2 * n + d := by exact_mod_cast hdown
  have hbelow : (roundHalfEven n d : ℚ) - 2⁻¹ ≤ n / d := by
    rw [le_div_iff₀ hpos]
    linarith
  have habove : (n : ℚ) / d ≤ roundHalfEven n d + 2⁻¹ := by
    rw [div_le_iff₀ hpos]
    linarith
  rw [abs_le]
  constructor <;> linarith

/-- Halfway between two integers the even one is taken. -/
theorem roundHalfEven_even {n d : Nat} (hd : 0 < d) (h : |(roundHalfEven n d : ℚ) - n / d| = 2⁻¹) :
    roundHalfEven n d % 2 = 0 := by
  have hpos : (d : ℚ) ≠ 0 := by exact_mod_cast hd.ne'
  have hsplit : n / d * d + n % d = n := Nat.div_add_mod' n d
  have hdouble : 2 * roundHalfEven n d * d = 2 * n + d ∨ 2 * roundHalfEven n d * d + d = 2 * n := by
    rcases (abs_eq (by norm_num)).1 h with hup | hdown
    · field_simp at hup
      refine .inl ?_
      have hcast : (2 : ℚ) * roundHalfEven n d * d = 2 * n + d := by linarith
      exact_mod_cast hcast
    · field_simp at hdown
      refine .inr ?_
      have hcast : (2 : ℚ) * roundHalfEven n d * d + d = 2 * n := by linarith
      exact_mod_cast hcast
  have hrest : n % d < d := Nat.mod_lt n hd
  have hbelow : 2 * (n / d) * d = 2 * (n / d * d) := by ring
  have habove : 2 * (n / d + 1) * d = 2 * (n / d * d) + 2 * d := by ring
  simp only [roundHalfEven] at hdouble ⊢
  split at hdouble
  · omega
  split at hdouble
  · omega
  · rename_i hless hmore
    rw [if_neg hless, if_neg hmore]
    omega

theorem roundHalfEven_le {n d k : Nat} (hd : 0 < d) (h : n ≤ k * d) : roundHalfEven n d ≤ k := by
  have herror := (roundHalfEven_error (n := n) hd).2
  have hproduct : 2 * roundHalfEven n d * d ≤ (2 * k + 1) * d := by
    have hright : (2 * k + 1) * d = 2 * (k * d) + d := by ring
    omega
  have hle : 2 * roundHalfEven n d ≤ 2 * k + 1 := Nat.le_of_mul_le_mul_right hproduct hd
  omega

/-- The even number above an odd one is reached from the middle between them on. -/
theorem roundHalfEven_eq_iff {n d k : Nat} (hd : 0 < d) (hk : k % 2 = 1) (h : n < (k + 1) * d) :
    roundHalfEven n d = k + 1 ↔ (2 * k + 1) * d ≤ 2 * n := by
  have hsplit : n / d * d + n % d = n := Nat.div_add_mod' n d
  have hquotient : n / d < k + 1 := Nat.div_lt_of_lt_mul (by rw [Nat.mul_comm]; exact h)
  have hrest : n % d < d := Nat.mod_lt n hd
  have hmiddle : (2 * k + 1) * d = 2 * (k * d) + d := by ring
  rcases Nat.lt_or_eq_of_le (Nat.le_of_lt_succ hquotient) with hlt | heq
  · -- A smaller quotient is rounded to the odd number at most.
    have hproduct : (n / d + 1) * d ≤ k * d := Nat.mul_le_mul_right d hlt
    rw [Nat.succ_mul] at hproduct
    have hle : roundHalfEven n d ≤ k := roundHalfEven_le hd (by omega)
    omega
  · rw [heq] at hsplit
    simp only [roundHalfEven, heq]
    split
    · omega
    split <;> omega

/-! ### The bound -/

/-- The middle between the largest double and the next power of two. -/
def overflow : ℚ := (2 ^ 54 - 1) * 2 ^ 970

/-- The significand and the exponent of a finite double, the exponent as small as it can be. -/
structure Canonical (m : Nat) (e : Int) : Prop where
  lt : m < powerOfTwo 53
  min_le : minExponent ≤ e
  le_max : e ≤ maxExponent
  least : e = minExponent ∨ powerOfTwo 52 ≤ m

/-- A number is rounded to the infinity of its sign from the bound on. Below it a finite double is no more than half a
unit of its last place away, and even if it is as far as that. -/
def Rounded (negative : Bool) (q : ℚ) (x : Binary64) : Prop :=
  (overflow ≤ q ∧ x = infinite negative) ∨
    (q < overflow ∧ ∃ m e, x = finite negative m e ∧ Canonical m e ∧ |m * 2 ^ e - q| ≤ 2 ^ (e - 1) ∧
      (|m * 2 ^ e - q| = 2 ^ (e - 1) → m % 2 = 0))

theorem overflow_eq : overflow = (2 ^ 54 - 1) * 2 ^ (970 : Int) := by rw [overflow, zpow_ofNat]

theorem overflow_le {v : ℚ} {e : Int} (he : 970 ≤ e) (h : (2 ^ 54 - 1) * 2 ^ e ≤ v) : overflow ≤ v := by
  have hpower : (2 : ℚ) ^ (970 : Int) ≤ 2 ^ e := zpow_le_zpow_right₀ (by norm_num) he
  rw [overflow_eq]
  linarith

theorem lt_overflow {v : ℚ} {e : Int} (he : e ≤ 970) (h : v < (2 ^ 54 - 1) * 2 ^ e) : v < overflow := by
  have hpower : (2 : ℚ) ^ e ≤ 2 ^ (970 : Int) := zpow_le_zpow_right₀ (by norm_num) he
  rw [overflow_eq]
  linarith

/-- A number with 53 binary digits before the unit `2 ^ e` is rounded to at least `2 ^ 52` units. -/
theorem full_of_error {v : ℚ} {q : Nat} {e : Int} (hlow : 2 ^ (e + 52) ≤ v) (herror : |q * 2 ^ e - v| ≤ 2 ^ (e - 1)) :
    powerOfTwo 52 ≤ q := by
  have hunit : (0 : ℚ) < 2 ^ e := by positivity
  have hbelow := (abs_le.1 herror).1
  rw [zpow_sub_one₀ (by norm_num)] at hbelow
  rw [zpow_add₀ (by norm_num), zpow_ofNat] at hlow
  have hscaled : ((2 : ℚ) ^ 52 - 2⁻¹) * 2 ^ e ≤ q * 2 ^ e := by linarith
  have hcount : (2 : ℚ) ^ 52 - 2⁻¹ ≤ q := le_of_mul_le_mul_right hscaled hunit
  have hnext : (2 : ℚ) ^ 52 < q + 1 := by linarith
  exact Nat.le_of_lt_succ (by exact_mod_cast hnext)

/-- The last step of rounding: a significand that has become a power of two takes one digit less, and an exponent that is
too large makes the number infinite. -/
theorem rounded_step {negative : Bool} {v : ℚ} {q : Nat} {e : Int} (he : minExponent ≤ e) (hhigh : v < 2 ^ (e + 53))
    (hlow : minExponent < e → 2 ^ (e + 52) ≤ v) (hq : q ≤ powerOfTwo 53) (herror : |q * 2 ^ e - v| ≤ 2 ^ (e - 1))
    (heven : |q * 2 ^ e - v| = 2 ^ (e - 1) → q % 2 = 0) (hcarry : q = powerOfTwo 53 ↔ (2 ^ 54 - 1) * 2 ^ (e - 1) ≤ v) :
    Rounded negative v (if q = powerOfTwo 53 then
      (if maxExponent < e + 1 then .infinite negative else .finite negative (powerOfTwo 52) (e + 1))
      else if maxExponent < e then .infinite negative else .finite negative q e) := by
  have hmin : minExponent = -1074 := rfl
  have hmax : maxExponent = 971 := rfl
  have hmargin (k : Int) : (2 : ℚ) ^ 53 * 2 ^ k ≤ (2 ^ 54 - 1) * 2 ^ k := by
    gcongr
    norm_num
  by_cases hfull : q = powerOfTwo 53
  · rw [if_pos hfull]
    split
    · exact .inl ⟨overflow_le (by omega) (hcarry.1 hfull), rfl⟩
    · have hbound : v < (2 ^ 54 - 1) * 2 ^ e := by
        rw [zpow_add₀ (by norm_num), mul_comm] at hhigh
        exact hhigh.trans_le (hmargin e)
      have hsame : ((powerOfTwo 52 : Nat) : ℚ) * 2 ^ (e + 1) = q * 2 ^ e := by
        rw [hfull, zpow_add_one₀ (by norm_num)]
        simp only [powerOfTwo, Nat.pow_eq, Nat.cast_pow, Nat.cast_ofNat]
        ring
      refine .inr ⟨lt_overflow (e := e) (by omega) hbound, _, _, rfl, ⟨by decide, by omega, by omega, .inr le_rfl⟩, ?_,
        fun _ => by decide⟩
      rw [hsame]
      exact herror.trans (zpow_le_zpow_right₀ (by norm_num) (by omega))
  · rw [if_neg hfull]
    split
    · have hbound : (2 ^ 54 - 1) * 2 ^ (e - 2) ≤ v := by
        refine le_trans ?_ (hlow (by omega))
        rw [show e + 52 = e - 2 + 54 by ring, zpow_add₀ (by norm_num), mul_comm]
        gcongr
        norm_num
      exact .inl ⟨overflow_le (e := e - 2) (by omega) hbound, rfl⟩
    · have hleast : e = minExponent ∨ powerOfTwo 52 ≤ q :=
        (eq_or_lt_of_le he).imp Eq.symm fun hlt => full_of_error (hlow hlt) herror
      exact .inr ⟨lt_overflow (by omega) (not_le.1 (hcarry.not.1 hfull)), q, e, rfl, ⟨by omega, he, by omega, hleast⟩,
        herror, heven⟩

section Units

variable {n d : Nat} {v : ℚ} {e : Int}

/-- A number with fewer than 53 binary digits before the unit `2 ^ e` is less than `2 ^ 53` units. -/
theorem units_lt (hd : 0 < d) (h : (n : ℚ) / d = v / 2 ^ e) (hv : v < 2 ^ (e + 53)) : n < powerOfTwo 53 * d := by
  have hpos : (0 : ℚ) < d := by exact_mod_cast hd
  have hunit : (0 : ℚ) < 2 ^ e := by positivity
  have hquotient : (n : ℚ) / d < 2 ^ 53 := by
    rw [h, div_lt_iff₀ hunit, ← zpow_ofNat, ← zpow_add₀ (by norm_num), add_comm]
    exact hv
  rw [div_lt_iff₀ hpos] at hquotient
  exact_mod_cast hquotient

/-- The count of units is rounded up to a power of two from half a unit below it on. -/
theorem units_full_iff (hd : 0 < d) (h : (n : ℚ) / d = v / 2 ^ e) (hn : n < powerOfTwo 53 * d) :
    roundHalfEven n d = powerOfTwo 53 ↔ (2 ^ 54 - 1) * 2 ^ (e - 1) ≤ v := by
  have hpos : (0 : ℚ) < d := by exact_mod_cast hd
  have hunit : (0 : ℚ) < 2 ^ e := by positivity
  have heven : roundHalfEven n d = powerOfTwo 53 ↔ 18014398509481983 * d ≤ 2 * n :=
    roundHalfEven_eq_iff (k := 9007199254740991) hd (by decide) hn
  have hhalf : 18014398509481983 * d ≤ 2 * n ↔ ((2 : ℚ) ^ 54 - 1) / 2 ≤ n / d := by
    rw [le_div_iff₀ hpos, ← Nat.cast_le (α := ℚ)]
    push_cast
    constructor <;> intro h <;> linarith
  rw [heven, hhalf, h, le_div_iff₀ hunit, zpow_sub_one₀ (by norm_num)]
  constructor <;> intro h <;> linarith

theorem units_distance (h : (n : ℚ) / d = v / 2 ^ e) :
    |roundHalfEven n d * 2 ^ e - v| = |(roundHalfEven n d : ℚ) - n / d| * 2 ^ e := by
  have hunit : (0 : ℚ) < 2 ^ e := by positivity
  have hvalue : v = n / d * 2 ^ e := by rw [h, div_mul_cancel₀ _ hunit.ne']
  rw [hvalue, ← sub_mul, abs_mul, abs_of_pos hunit]

theorem units_error (hd : 0 < d) (h : (n : ℚ) / d = v / 2 ^ e) : |roundHalfEven n d * 2 ^ e - v| ≤ 2 ^ (e - 1) := by
  have hhalf := abs_roundHalfEven_sub (n := n) hd
  rw [units_distance h, zpow_sub_one₀ (by norm_num), mul_comm ((2 : ℚ) ^ e)]
  gcongr

theorem units_even (hd : 0 < d) (h : (n : ℚ) / d = v / 2 ^ e) (htie : |roundHalfEven n d * 2 ^ e - v| = 2 ^ (e - 1)) :
    roundHalfEven n d % 2 = 0 := by
  have hunit : (2 : ℚ) ^ e ≠ 0 := by positivity
  rw [units_distance h, zpow_sub_one₀ (by norm_num), mul_comm ((2 : ℚ) ^ e)] at htie
  exact roundHalfEven_even hd (mul_right_cancel₀ hunit htie)

end Units

theorem rounded_nearest (negative : Bool) {num den : Nat} (hnum : 0 < num) (hden : 0 < den) :
    Rounded negative (num / den) (nearest negative num den) := by
  obtain ⟨hleading, hnext⟩ := floorLog2_spec hnum hden
  obtain ⟨e, he⟩ : ∃ e, max minExponent (floorLog2 num den - 52) = e := ⟨_, rfl⟩
  have hmin : minExponent ≤ e := by omega
  have hhigh : (num : ℚ) / den < 2 ^ (e + 53) :=
    hnext.trans_le (zpow_le_zpow_right₀ (by norm_num) (by omega))
  have hlow : minExponent < e → (2 : ℚ) ^ (e + 52) ≤ num / den := by
    intro hlarge
    rw [show e + 52 = floorLog2 num den by omega]
    exact hleading
  -- The number of units of the last place, as a fraction.
  obtain ⟨n, hn⟩ : ∃ n, (scaled num (-e)).1 = n := ⟨_, rfl⟩
  obtain ⟨d, hd⟩ : ∃ d, den * (scaled num (-e)).2 = d := ⟨_, rfl⟩
  have hpos : 0 < d := by
    rw [← hd]
    exact Nat.mul_pos hden (scaled_spec num (-e)).1
  have hunits : (n : ℚ) / d = num / den / 2 ^ e := by
    rw [← hn, ← hd]
    exact scaled_fraction num den e
  have hsmall := units_lt hpos hunits hhigh
  have hnearest : nearest negative num den = if roundHalfEven n d = powerOfTwo 53 then
      (if maxExponent < e + 1 then .infinite negative else .finite negative (powerOfTwo 52) (e + 1))
      else if maxExponent < e then .infinite negative else .finite negative (roundHalfEven n d) e := by
    simp only [nearest, he, hn, hd]
    split <;> rfl
  rw [hnearest]
  exact rounded_step hmin hhigh hlow (roundHalfEven_le hpos hsmall.le) (units_error hpos hunits)
    (units_even hpos hunits) (units_full_iff hpos hunits hsmall)

/-! ### Decimals -/

/-- The leading digit of a decimal tells its size. -/
theorem decimal_bounds {c : Nat} (hc : 0 < c) (e : Int) :
    (10 : ℚ) ^ (e + digitCount c - 1) ≤ c * 10 ^ e ∧ (c : ℚ) * 10 ^ e < 10 ^ (e + digitCount c) := by
  have hlow : (10 : ℚ) ^ Nat.log 10 c ≤ c := by exact_mod_cast Nat.pow_log_le_self 10 hc.ne'
  have hhigh : (c : ℚ) < 10 ^ (Nat.log 10 c + 1) := by exact_mod_cast Nat.lt_pow_succ_log_self (by decide) c
  have hleading : e + (Nat.log 10 c + 1 : Nat) = (Nat.log 10 c + 1 : Nat) + e := add_comm _ _
  rw [Spelling.digitCount_eq, hleading]
  constructor
  · calc (10 : ℚ) ^ (((Nat.log 10 c + 1 : Nat) : Int) + e - 1) = 10 ^ Nat.log 10 c * 10 ^ e := by
          rw [← zpow_natCast, ← zpow_add₀ (by norm_num)]
          congr 1
          push_cast
          ring
      _ ≤ c * 10 ^ e := by gcongr
  · calc (c : ℚ) * 10 ^ e < 10 ^ (Nat.log 10 c + 1) * 10 ^ e := by gcongr
      _ = 10 ^ (((Nat.log 10 c + 1 : Nat) : Int) + e) := by rw [← zpow_natCast, ← zpow_add₀ (by norm_num)]

theorem overflow_bounds : 1 ≤ overflow ∧ overflow ≤ 10 ^ (311 : Int) := by
  have hlow : (1 : ℚ) ≤ 2 ^ 970 := one_le_pow₀ (by norm_num)
  have hhigh : (2 : ℚ) ^ 970 ≤ 10 ^ 293 := by
    have hnat : 2 ^ 970 ≤ 10 ^ 293 := by decide +kernel
    exact_mod_cast hnat
  have hsplit : (10 : ℚ) ^ (311 : Int) = 10 ^ 18 * 10 ^ 293 := by rw [zpow_ofNat, ← pow_add]
  rw [overflow, hsplit]
  generalize (2 : ℚ) ^ 970 = a at *
  generalize (10 : ℚ) ^ 293 = b at *
  constructor <;> linarith

/-- Below half the smallest double a number is rounded to zero. -/
theorem rounded_zero (negative : Bool) {q : ℚ} (hpos : 0 ≤ q) (hq : q ≤ 10 ^ (-330 : Int)) :
    Rounded negative q (zero negative) := by
  have hhalf : (10 : ℚ) ^ (-330 : Int) ≤ 2 ^ (minExponent - 1) := by
    have hnat : 2 ^ 1075 ≤ 10 ^ 330 := by decide +kernel
    have hcast : (2 : ℚ) ^ 1075 ≤ 10 ^ 330 := by exact_mod_cast hnat
    rw [show minExponent - 1 = -1075 by rfl, zpow_neg, zpow_neg, zpow_ofNat, zpow_ofNat]
    exact inv_anti₀ (by positivity) hcast
  have hone : (10 : ℚ) ^ (-330 : Int) < 10 ^ (0 : Int) := zpow_lt_zpow_right₀ (by norm_num) (by decide)
  rw [zpow_zero] at hone
  refine .inr ⟨hq.trans_lt (hone.trans_le overflow_bounds.1), 0, minExponent, rfl,
    ⟨by decide, le_rfl, by decide, .inl rfl⟩, ?_, fun _ => by decide⟩
  rw [Nat.cast_zero, zero_mul, zero_sub, abs_neg, abs_of_nonneg hpos]
  exact hq.trans hhalf

theorem rounded_ofScientific (negative : Bool) (c : Nat) (e : Int) :
    Rounded negative (c * 10 ^ e) (ofScientific negative c e) := by
  simp only [ofScientific]
  split
  · rename_i hzero
    rw [hzero, Nat.cast_zero, zero_mul]
    exact rounded_zero negative le_rfl (by positivity)
  rename_i hsome
  have hc : 0 < c := Nat.pos_of_ne_zero hsome
  obtain ⟨hlow, hhigh⟩ := decimal_bounds hc e
  split
  · rename_i hlarge
    have hpower : (10 : ℚ) ^ (311 : Int) ≤ 10 ^ (e + digitCount c - 1) := zpow_le_zpow_right₀ (by norm_num) (by omega)
    exact .inl ⟨overflow_bounds.2.trans (hpower.trans hlow), rfl⟩
  split
  · rename_i hsmall
    have hpower : (10 : ℚ) ^ (e + digitCount c) ≤ 10 ^ (-330 : Int) := zpow_le_zpow_right₀ (by norm_num) (by omega)
    exact rounded_zero negative (by positivity) (hhigh.le.trans hpower)
  -- What is left is rounded as a fraction with a power of ten above or below the line.
  split
  · rename_i k _ _
    have hfraction : ((c * powerOfTen k : Nat) : ℚ) / (1 : Nat) = c * 10 ^ (Int.ofNat k) := by
      simp [powerOfTen]
    rw [← hfraction]
    exact rounded_nearest negative (Nat.mul_pos hc (Nat.pow_pos (by decide))) Nat.one_pos
  · rename_i k _ _
    have hfraction : (c : ℚ) / (powerOfTen (k + 1) : Nat) = c * 10 ^ (Int.negSucc k) := by
      rw [zpow_negSucc]
      simp [powerOfTen, div_eq_mul_inv]
    rw [← hfraction]
    exact rounded_nearest negative hc (Nat.pow_pos (by decide))

theorem rounded_ofDecimal (d : Decimal) : Rounded d.negative |d.value| (ofDecimal d) := by
  rw [Decimal.abs_value]
  exact rounded_ofScientific d.negative d.coefficient d.exponent

end Binary64

end FeedLedger
