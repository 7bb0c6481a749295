import FeedLedger.Proofs.Calendar
import FeedLedger.Proofs.Spelling
import Mathlib.Data.List.Forall2
import Mathlib.Tactic.Common

namespace FeedLedger

open Text

namespace Spelling

/-! ### Rows of digits -/

theorem number_append (s t : List Nat) : number (s ++ t) = number s * 10 ^ t.length + number t := by
  rw [number, List.reverse_append, Nat.ofDigits_append, List.length_reverse]
  simp only [number]
  ring

theorem number_zeros (k : Nat) : number (List.replicate k 0) = 0 := by
  simp [number, Nat.ofDigits_replicate_zero]

theorem isDigit_of_mem {n : Nat} {c : Char} (h : c ∈ digitsOfNat n) : isDigit c = true := by
  have hdigit : c.isDigit = true := Nat.isDigit_of_mem_toDigits (by decide) (by decide) h
  simp only [Char.isDigit, Bool.and_eq_true, decide_eq_true_eq] at hdigit
  simp only [isDigit, Bool.and_eq_true, decide_eq_true_eq]
  exact ⟨UInt32.le_iff_toNat_le.1 hdigit.1, UInt32.le_iff_toNat_le.1 hdigit.2⟩

theorem asciiDigit_of_isDigit {c : Char} (h : isDigit c = true) : asciiDigit c = c := by
  simp only [isDigit, Bool.and_eq_true, decide_eq_true_eq] at h
  have hvalue : digitValue? c = some (c.toNat - 0x30) := by
    rw [digitValue?, digitZeros, List.findSome?_cons, if_pos ⟨h.1, h.2⟩]
  rw [asciiDigit_of_value hvalue, ← Char.toNat_inj, Nat.toNat_digitChar_of_lt_ten (by omega)]
  omega

/-- The digits of a number spell it. -/
theorem digits_digitsOfNat (n : Nat) :
    ∃ values, Digits (digitsOfNat n) values ∧ number values = n := by
  have hself : (digitsOfNat n).map asciiDigit = digitsOfNat n :=
    (List.map_congr_left fun c hc => asciiDigit_of_isDigit (isDigit_of_mem hc)).trans (List.map_id _)
  have hsome : ∀ c ∈ digitsOfNat n, (digitValue? c).isSome = true := by
    intro c hc
    rw [← isDigit_asciiDigit, asciiDigit_of_isDigit (isDigit_of_mem hc)]
    exact isDigit_of_mem hc
  obtain ⟨values, hvalues⟩ := digits_of_isSome hsome
  have hback : natOfDigits (digitsOfNat n) = n := Nat.ofDigitChars_ten_toDigits
  refine ⟨values, hvalues, ?_⟩
  rw [← natOfDigits_digitChars hvalues.lt, ← hvalues.map_asciiDigit, hself, hback]

theorem digits_zeros (k : Nat) : Digits (List.replicate k '0') (List.replicate k 0) := by
  induction k with
  | zero => exact .nil
  | succ k ih => exact .cons (by decide) ih

theorem Digits.append {s t : List Char} {values places : List Nat} (hs : Digits s values) (ht : Digits t places) :
    Digits (s ++ t) (values ++ places) := List.rel_append hs ht

/-! ### The written form of a decimal -/

/-- Digits around a point spell their number, with zeros for a point behind the last digit and a place for each digit
behind a point before it. -/
theorem mantissa_pointed {s : List Char} {values : List Nat} (h : Digits s values) (hne : s ≠ []) (place : Int) :
    ∃ whole places, Mantissa (Decimal.pointed s place) whole places ∧ whole ++ places ≠ [] ∧
      number (whole ++ places) = number values * 10 ^ (place - s.length).toNat ∧
      places.length = (s.length - place).toNat := by
  have hlength : s.length = values.length := h.length_eq
  have hsome : values ≠ [] := (digits_nil_iff h).not.1 hne
  unfold Decimal.pointed
  split
  · rename_i hplace
    -- The point stands before all digits.
    refine ⟨[0], List.replicate (-place).toNat 0 ++ values, .pointed (.cons (by decide) .nil)
      ((digits_zeros _).append h), by simp, ?_, ?_⟩
    · have hzero : (place - s.length).toNat = 0 := by omega
      rw [List.singleton_append, ← List.cons_append, ← List.replicate_succ, number_append, number_zeros, hzero]
      omega
    · rw [List.length_append, List.length_replicate]
      omega
  split
  · -- The point stands behind all digits and is left out.
    refine ⟨values ++ List.replicate (place.toNat - s.length) 0, [], .whole (h.append (digits_zeros _)),
      by simp [hsome], ?_, ?_⟩
    · have hshift : (place - s.length).toNat = place.toNat - s.length := by omega
      rw [List.append_nil, number_append, number_zeros, List.length_replicate, hshift, Nat.add_zero]
    · rw [List.length_nil]
      omega
  · refine ⟨values.take place.toNat, values.drop place.toNat,
      .pointed (List.forall₂_take _ h) (List.forall₂_drop _ h), ?_, ?_, ?_⟩
    · rw [List.take_append_drop]
      exact hsome
    · have hzero : (place - s.length).toNat = 0 := by omega
      rw [List.take_append_drop, hzero, Nat.pow_zero, Nat.mul_one]
    · rw [List.length_drop]
      omega

theorem exponent_mark (e : Int) : ∃ negative values, Exponent (Decimal.exponentMark e) negative values ∧
    Decimal.signed negative (number values) = e := by
  obtain ⟨values, hvalues, hnumber⟩ := digits_digitsOfNat e.natAbs
  have hne : values ≠ [] := (digits_nil_iff hvalues).not.1 Nat.toDigits_ne_nil
  by_cases he : e < 0
  · refine ⟨true, values, ?_, ?_⟩
    · rw [Decimal.exponentMark, if_pos he]
      exact .marked (.inr rfl) .minus hvalues hne
    · rw [hnumber, Decimal.signed, if_pos rfl]
      omega
  · refine ⟨false, values, ?_, ?_⟩
    · rw [Decimal.exponentMark, if_neg he]
      exact .marked (.inr rfl) .plus hvalues hne
    · rw [hnumber, Decimal.signed, if_neg (by simp)]
      omega

theorem sign_mark (negative : Bool) : Sign (if negative then ['-'] else []) negative := by
  cases negative
  · exact .absent
  · exact .minus

/-- What a decimal is written as spells its parts. -/
theorem spells_toChars (d : Decimal) : ∃ p, Spells d.toChars p ∧ Reads d p := by
  obtain ⟨values, hvalues, hnumber⟩ := digits_digitsOfNat d.coefficient
  have hne : digitsOfNat d.coefficient ≠ [] := Nat.toDigits_ne_nil
  have hpos : 0 < (digitsOfNat d.coefficient).length := List.length_pos_iff.2 hne
  by_cases hform : d.exponent ≤ 0 ∧ -6 < d.exponent + (digitsOfNat d.coefficient).length
  · obtain ⟨whole, places, hmantissa, hsome, hcoefficient, hplaces⟩ :=
      mantissa_pointed hvalues hne (d.exponent + (digitsOfNat d.coefficient).length)
    refine ⟨⟨d.negative, whole, places, false, []⟩, ?_, rfl, ?_, ?_⟩
    · rw [Decimal.toChars, Decimal.magnitudeChars]
      rw [if_pos hform, ← List.append_nil (Decimal.pointed _ _)]
      exact .of (sign_mark _) hmantissa hsome .absent
    · have hzero : (d.exponent + (digitsOfNat d.coefficient).length - (digitsOfNat d.coefficient).length).toNat = 0 := by
        omega
      rw [Parts.coefficient, hcoefficient, hnumber, hzero, Nat.pow_zero, Nat.mul_one]
    · simp only [Parts.scale, Decimal.signed, hplaces]
      simp only [number, List.reverse_nil, Nat.ofDigits_nil]
      omega
  · obtain ⟨whole, places, hmantissa, hsome, hcoefficient, hplaces⟩ := mantissa_pointed hvalues hne 1
    obtain ⟨negative, exponent, hexponent, hsigned⟩ :=
      exponent_mark (d.exponent + (digitsOfNat d.coefficient).length - 1)
    refine ⟨⟨d.negative, whole, places, negative, exponent⟩, ?_, rfl, ?_, ?_⟩
    · rw [Decimal.toChars, Decimal.magnitudeChars]
      rw [if_neg hform]
      exact .of (sign_mark _) hmantissa hsome hexponent
    · have hzero : ((1 : Int) - (digitsOfNat d.coefficient).length).toNat = 0 := by omega
      rw [Parts.coefficient, hcoefficient, hnumber, hzero, Nat.pow_zero, Nat.mul_one]
    · simp only [Parts.scale, hsigned, hplaces]
      omega

/-! ### Reading what is written -/

/-- A character of the ASCII range that shows and is no underscore. -/
def Shows (c : Char) : Prop := 0x20 < c.toNat ∧ c.toNat < 0x7F ∧ c ≠ '_'

theorem Shows.not_blank {c : Char} (h : Shows c) : isBlank c = false := by
  obtain ⟨hlow, hhigh, -⟩ := h
  simp only [isBlank, isSpace, Bool.or_eq_false_iff, Bool.and_eq_false_iff, decide_eq_false_iff_not,
    beq_eq_false_iff_ne, ne_eq]
  omega

theorem shows_of_isDigit {c : Char} (h : isDigit c = true) : Shows c := by
  simp only [isDigit, Bool.and_eq_true, decide_eq_true_eq] at h
  refine ⟨by omega, by omega, ?_⟩
  rintro rfl
  exact absurd h.2 (by decide)

theorem trim_eq_self {p : Char → Bool} {s : List Char} (h : ∀ c ∈ s, p c = false) : trim p s = s := by
  have hfirst {t : List Char} (ht : ∀ c ∈ t, p c = false) : t.dropWhile p = t := by
    cases t with
    | nil => rfl
    | cons c r => rw [List.dropWhile_cons_of_neg (by simp [ht c])]
  rw [trim, hfirst h, hfirst fun c hc => h c (List.mem_reverse.1 hc), List.reverse_reverse]

theorem body_of_shows {s : List Char} (h : ∀ c ∈ s, Shows c) : body (String.ofList s) = s := by
  rw [body, String.toList_ofList, strip, trim_eq_self fun c hc => (h c hc).not_blank, List.filter_eq_self]
  exact fun c hc => by simpa using (h c hc).2.2

theorem shows_pointed {s : List Char} (h : ∀ c ∈ s, Shows c) (place : Int) : ∀ c ∈ Decimal.pointed s place, Shows c := by
  have hzero : Shows '0' := ⟨by decide, by decide, by decide⟩
  have hpoint : Shows '.' := ⟨by decide, by decide, by decide⟩
  have hzeros (k : Nat) : ∀ c ∈ List.replicate k '0', Shows c := by
    intro c hc
    rw [List.eq_of_mem_replicate hc]
    exact hzero
  unfold Decimal.pointed
  split
  · exact List.forall_mem_append.2
      ⟨List.forall_mem_cons.2 ⟨hzero, List.forall_mem_cons.2 ⟨hpoint, hzeros _⟩⟩, h⟩
  split
  · exact List.forall_mem_append.2 ⟨h, hzeros _⟩
  · exact List.forall_mem_append.2 ⟨fun c hc => h c (List.mem_of_mem_take hc),
      List.forall_mem_cons.2 ⟨hpoint, fun c hc => h c (List.mem_of_mem_drop hc)⟩⟩

theorem shows_digits (n : Nat) : ∀ c ∈ digitsOfNat n, Shows c := fun _ hc => shows_of_isDigit (isDigit_of_mem hc)

theorem shows_sign (negative : Bool) : ∀ c ∈ (if negative then ['-'] else []), Shows c := by
  cases negative
  · simp
  · exact List.forall_mem_singleton.2 ⟨by decide, by decide, by decide⟩

theorem shows_toChars (d : Decimal) : ∀ c ∈ d.toChars, Shows c := by
  rw [Decimal.toChars]
  refine List.forall_mem_append.2 ⟨shows_sign _, ?_⟩
  rw [Decimal.magnitudeChars]
  split
  · exact shows_pointed (shows_digits _) _
  · refine List.forall_mem_append.2 ⟨shows_pointed (shows_digits _) _, ?_⟩
    rw [Decimal.exponentMark]
    refine List.forall_mem_cons.2 ⟨⟨by decide, by decide, by decide⟩, List.forall_mem_cons.2 ⟨?_, shows_digits _⟩⟩
    split <;> exact ⟨by decide, by decide, by decide⟩

/-- Reading a text that is spelled makes the decimal of its parts, if they are within the limits. -/
theorem toDecimal?_of_spells {s : String} {p : Parts} (h : Spells (body s) p) :
    (Value.text s).toDecimal? = Decimal.mk? p.negative p.coefficient p.scale := by
  have hread : (Value.text s).toDecimal? =
      (Numeral.ofChars? ((body s).map asciiDigit)).bind fun n => Decimal.mk? n.negative n.coefficient n.scale := rfl
  obtain ⟨hcoefficient, hscale⟩ := numeral_spec h
  rw [hread, ofChars?_eq_some_iff.2 ⟨p, h, rfl⟩, Option.bind_some, hcoefficient, hscale]
  rfl

theorem toDecimal?_of_not_spells {s : String} (h : ∀ p, ¬Spells (body s) p) : (Value.text s).toDecimal? = none := by
  refine Option.eq_none_iff_forall_ne_some.2 fun d hd => ?_
  obtain ⟨p, hp, -⟩ := toDecimal?_text_eq_some_iff.1 hd
  exact h p hp

theorem toDecimal?_toText (d : Decimal) : (Value.text d.toText).toDecimal? = some d := by
  obtain ⟨p, hp, hread⟩ := spells_toChars d
  refine toDecimal?_text_eq_some_iff.2 ⟨p, ?_, hread⟩
  rw [Decimal.toText, body_of_shows (shows_toChars d)]
  exact hp

/-- The name of a value that is no number is a word for it, and shows in every place. -/
theorem word_toChars {v : DecimalValue} (h : v.finite? = none) :
    ∃ sign word, v.toChars = sign ++ word ∧ Word word ∧ ∀ c ∈ sign ++ word, Shows c := by
  cases v with
  | finite d => cases h
  | infinite negative =>
    refine ⟨_, _, rfl, .infinite (.inr (by decide)), List.forall_mem_append.2 ⟨shows_sign negative, ?_⟩⟩
    simp [Shows]
  | nan negative signaling payload =>
    obtain ⟨values, hvalues, -⟩ := digits_digitsOfNat payload
    have hpayload : ∃ values, Digits (if payload = 0 then [] else digitsOfNat payload) values := by
      split
      · exact ⟨[], .nil⟩
      · exact ⟨values, hvalues⟩
    obtain ⟨places, hplaces⟩ := hpayload
    have hname : ((if signaling then ['s'] else []) ++ "NaN".toList).map Char.toLower = "nan".toList ∨
        ((if signaling then ['s'] else []) ++ "NaN".toList).map Char.toLower = "snan".toList := by
      cases signaling <;> decide
    refine ⟨_, _, by rw [DecimalValue.toChars, List.append_assoc, List.append_assoc, ← List.append_assoc _ "NaN".toList],
      .nan hname hplaces, List.forall_mem_append.2 ⟨shows_sign negative, List.forall_mem_append.2 ⟨?_, ?_⟩⟩⟩
    · cases signaling <;> simp [Shows]
    · split
      · simp
      · exact shows_digits payload

theorem toDecimal?_toText_value (v : DecimalValue) : (Value.text v.toText).toDecimal? = v.finite? := by
  cases hv : v.finite? with
  | some d =>
    cases v with
    | finite e =>
      cases hv
      exact toDecimal?_toText d
    | _ => cases hv
  | none =>
    obtain ⟨sign, word, hchars, hword, hshows⟩ := word_toChars hv
    refine toDecimal?_of_not_spells fun p hp => ?_
    rw [DecimalValue.toText, hchars, body_of_shows hshows] at hp
    exact not_spells_word hword hp

/-- An integer is written as a sign and its digits, so reading makes the decimal with exponent zero of them. -/
theorem toDecimal?_int (n : Int) : (Value.int n).toDecimal? = Decimal.mk? (decide (n < 0)) n.natAbs 0 := by
  have hchars : digitsOfInt n = (if decide (n < 0) then ['-'] else []) ++ digitsOfNat n.natAbs := by
    cases n with
    | ofNat k => rfl
    | negSucc k => rw [decide_eq_true (Int.negSucc_lt_zero k)]; rfl
  have hshows : ∀ c ∈ digitsOfInt n, Shows c := by
    rw [hchars]
    exact List.forall_mem_append.2 ⟨shows_sign _, shows_digits _⟩
  have hread : (Value.int n).toDecimal? = (Value.text (String.ofList (digitsOfInt n))).toDecimal? := by
    simp only [Value.toDecimal?, Decimal.ofText?, String.toList_ofList]
  obtain ⟨values, hvalues, hnumber⟩ := digits_digitsOfNat n.natAbs
  have hne : values ≠ [] := (digits_nil_iff hvalues).not.1 Nat.toDigits_ne_nil
  have hspells : Spells (body (String.ofList (digitsOfInt n))) ⟨decide (n < 0), values, [], false, []⟩ := by
    rw [body_of_shows hshows, hchars, ← List.append_nil (digitsOfNat _)]
    exact .of (sign_mark _) (.whole hvalues) (by simpa using hne) .absent
  have hcoefficient : (⟨decide (n < 0), values, [], false, []⟩ : Parts).coefficient = n.natAbs := by
    rw [Parts.coefficient, List.append_nil, hnumber]
  have hscale : (⟨decide (n < 0), values, [], false, []⟩ : Parts).scale = 0 := by
    simp [Parts.scale, Decimal.signed, number]
  rw [hread, toDecimal?_of_spells hspells, hcoefficient, hscale]

end Spelling

namespace Value

/-- A value that is given as a text is the same number as before. -/
theorem toDecimal?_coerce_string (v : Value) : (v.coerce .string).toDecimal? = v.toDecimal? := by
  cases v with
  | bool b => cases b <;> decide
  | int _ | float _ =>
    simp only [coerce, toText?, scalarChars?, Option.map_some, ofOption, toDecimal?, Decimal.ofText?, String.toList_ofList]
  | decimal d => exact Spelling.toDecimal?_toText_value d
  | text s =>
    simp only [coerce, toText?]
    split
    · rename_i hblank
      have hnone : Decimal.ofText? s = none := by
        rw [Decimal.ofText?, Decimal.ofChars?, Decimal.significant, hblank]
        rfl
      rw [toDecimal?, hnone]
      rfl
    · rfl
  | _ => rfl

/-- A converted text is a text or absent, so an integer is made of its decimal. -/
theorem toInt?_coerce_string (v : Value) : (v.coerce .string).toInt? = v.toDecimal?.bind Decimal.toInt? := by
  rw [← toDecimal?_coerce_string]
  simp only [coerce]
  cases v.toText? <;> rfl

theorem toMoment?_coerce_string (v : Value) (unit : Nat) : (v.coerce .string).toMoment? unit =
    (v.toDecimal?.bind Decimal.toInt?).bind fun n => Moment.ofEpoch? (n * unit) := by
  rw [← toInt?_coerce_string]
  simp only [coerce]
  cases v.toText? <;> rfl

/-- An integer within the limits of decimals is the integer of its decimal; one beyond them has no decimal. -/
theorem toInt?_of_toDecimal?_int (n : Int) :
    (int n).toDecimal?.bind Decimal.toInt? = if Decimal.Within n.natAbs 0 then some n else none := by
  rw [Spelling.toDecimal?_int, Decimal.mk?]
  split
  · rw [Option.bind_some, Decimal.toInt?]
    split
    · rename_i hzero
      rw [Int.natAbs_eq_zero.1 hzero]
    · have hsigned : Decimal.signed (decide (n < 0)) n.natAbs = n := by
        simp only [Decimal.signed, decide_eq_true_eq]
        split <;> omega
      change some (Decimal.signed (decide (n < 0)) (n.natAbs * powerOfTen 0)) = some n
      rw [show powerOfTen 0 = 1 from rfl, Nat.mul_one, hsigned]
  · rfl

/-- An integer beyond the limits of decimals is far beyond the years that times have. -/
theorem ofEpoch?_of_not_within {n : Int} (h : ¬Decimal.Within n.natAbs 0) {unit : Nat} (hunit : 0 < unit) :
    Moment.ofEpoch? (n * unit) = none := by
  have hlarge : 10 ^ 20 ≤ n.natAbs := by
    refine Nat.le_of_not_lt fun hlt => h ?_
    have hcount : digitCount n.natAbs ≤ 20 := (Nat.length_toDigits_le_iff (by decide) (by decide)).2 hlt
    simp only [Decimal.Within, Decimal.minExponent, Decimal.maxAdjusted]
    omega
  have hproduct : 10 ^ 20 ≤ (n * unit).natAbs := by
    rw [Int.natAbs_mul, Int.natAbs_natCast]
    exact hlarge.trans (Nat.le_mul_of_pos_right _ hunit)
  rw [← Option.not_isSome_iff_eq_none, Moment.isSome_ofEpoch?_iff]
  omega

theorem toMoment?_through_text {v : Value} (hv : ∀ m, v ≠ .moment m) {unit : Nat} (hunit : 0 < unit) :
    (v.coerce .string).toMoment? unit = v.toMoment? unit := by
  rw [toMoment?_coerce_string]
  cases v with
  | moment m => exact absurd rfl (hv m)
  | int n =>
    rw [toInt?_of_toDecimal?_int]
    split
    · rfl
    · rename_i hbeyond
      exact (ofEpoch?_of_not_within hbeyond hunit).symm
  | _ => rfl

theorem toInt?_through_text (v : Value) :
    (v.coerce .string).toInt? = v.toInt? ↔ ∀ n, v = .int n → Decimal.Within n.natAbs 0 := by
  rw [toInt?_coerce_string]
  cases v with
  | int n =>
    rw [toInt?_of_toDecimal?_int]
    simp only [toInt?, ite_eq_left_iff, reduceCtorEq, imp_false, not_not, Value.int.injEq, forall_eq']
  | _ => simp [toInt?]

end Value

/-- For every value but a moment, the text of it is converted to the same decimal and to the same time as the value itself,
and to the same integer unless the value is an integer that is beyond the limits of decimals. Reading the written form of
a decimal gives it back with its sign, its coefficient and its exponent. -/
theorem numbers_survive_their_written_form :
    (∀ v : Value, (∀ m, v ≠ .moment m) →
      (v.coerce .string).coerce .decimal = v.coerce .decimal ∧
      (v.coerce .string).coerce .timestamp = v.coerce .timestamp ∧
      (v.coerce .string).coerce .epochSeconds = v.coerce .epochSeconds ∧
      ((v.coerce .string).coerce .integer = v.coerce .integer ↔ ∀ n, v = .int n → Decimal.Within n.natAbs 0)) ∧
    (∀ d : Decimal, Decimal.ofText? d.toText = some d) ∧
    ∀ n : Int, (Value.int n).toDecimal?.bind Decimal.toInt? = (Value.int n).toInt? ↔ Decimal.Within n.natAbs 0 := by
  have integer_eq (o o' : Option Int) : Value.ofOption .int o = Value.ofOption .int o' ↔ o = o' := by
    cases o <;> cases o' <;> simp [Value.ofOption]
  refine ⟨fun v hv => ⟨?_, ?_, ?_, ?_⟩, Spelling.toDecimal?_toText, fun n => ?_⟩
  · exact congrArg (Value.ofOption _) (Value.toDecimal?_coerce_string v)
  · exact congrArg (Value.ofOption _) (Value.toMoment?_through_text hv (by decide))
  · exact congrArg (Value.ofOption _) (Value.toMoment?_through_text hv (by decide))
  · exact (integer_eq _ _).trans (Value.toInt?_through_text v)
  · rw [← Value.toInt?_coerce_string, Value.toInt?_through_text]
    simp

/-- A zero with a sign and places behind the point. -/
theorem negative_zero_survives_its_written_form :
    let v := Value.decimal (.finite ⟨true, 0, -8, by decide⟩)
    (∀ m, v ≠ .moment m) ∧ v.coerce .string = .text "-0E-8" ∧
      (v.coerce .string).coerce .decimal = v.coerce .decimal ∧
      (v.coerce .string).coerce .timestamp = v.coerce .timestamp ∧
      (v.coerce .string).coerce .epochSeconds = v.coerce .epochSeconds ∧
      (v.coerce .string).coerce .integer = v.coerce .integer := by
  intro v
  have hv : ∀ m, v ≠ .moment m := by simp [v]
  have htext : v.coerce .string = .text "-0E-8" :=
    congrArg (Value.ofOption .text) (by decide +kernel : v.toText? = some "-0E-8")
  obtain ⟨hdecimal, htimestamp, hepoch, hinteger⟩ := numbers_survive_their_written_form.1 v hv
  exact ⟨hv, htext, hdecimal, htimestamp, hepoch, hinteger.2 (by simp [v])⟩

end FeedLedger
