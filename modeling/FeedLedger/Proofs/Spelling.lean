import FeedLedger.Coercion
import Mathlib.Data.List.Induction
import Mathlib.Data.Nat.Digits.Defs
import Mathlib.Data.Nat.Log

/-!
The grammar of numerals. A text spells a decimal by a sign, digits of any script with a point among them, and an
exponent; each of the three but the digits may be absent. Reading accepts the texts that the grammar derives, as long
as the number is within the limits, and it gives the parts as they are written.
-/

namespace FeedLedger

open Text

namespace Spelling

inductive Sign : List Char → Bool → Prop
  | absent : Sign [] false
  | plus : Sign ['+'] false
  | minus : Sign ['-'] true

/-- A row of digits of any script, with the values they stand for. -/
def Digits (s : List Char) (values : List Nat) : Prop := List.Forall₂ (fun c d => digitValue? c = some d) s values

/-- Digits with at most one point among them, with the values of those before the point and of those behind it. -/
inductive Mantissa : List Char → List Nat → List Nat → Prop
  | whole {s : List Char} {values : List Nat} (h : Digits s values) : Mantissa s values []
  | pointed {s t : List Char} {values places : List Nat} (h : Digits s values) (ht : Digits t places) :
      Mantissa (s ++ '.' :: t) values places

/-- An exponent behind its mark, with its sign and the values of its digits. -/
inductive Exponent : List Char → Bool → List Nat → Prop
  | absent : Exponent [] false []
  | marked {mark : Char} {sign s : List Char} {negative : Bool} {values : List Nat} (hm : mark = 'e' ∨ mark = 'E')
      (hsign : Sign sign negative) (h : Digits s values) (hne : values ≠ []) :
      Exponent (mark :: (sign ++ s)) negative values

/-- The parts of a spelling, digits by their values. -/
structure Parts where
  negative : Bool
  whole : List Nat
  places : List Nat
  exponentNegative : Bool
  exponent : List Nat

/-- What a text spells. There is a digit before or behind the point. -/
inductive Spells : List Char → Parts → Prop
  | of {sign mantissa exponent : List Char} {p : Parts} (hs : Sign sign p.negative)
      (hm : Mantissa mantissa p.whole p.places) (hne : p.whole ++ p.places ≠ [])
      (he : Exponent exponent p.exponentNegative p.exponent) : Spells (sign ++ (mantissa ++ exponent)) p

/-- The number that a row of digits forms. -/
def number (values : List Nat) : Nat := Nat.ofDigits 10 values.reverse

namespace Parts

def coefficient (p : Parts) : Nat := number (p.whole ++ p.places)

/-- The exponent that is written, less the number of digits behind the point. -/
def scale (p : Parts) : Int := Decimal.signed p.exponentNegative (number p.exponent) - p.places.length

/-- The parts with their digits in ASCII. -/
def numeral (p : Parts) : Numeral :=
  ⟨p.negative, p.whole.map Nat.digitChar, p.places.map Nat.digitChar, p.exponentNegative,
    p.exponent.map Nat.digitChar⟩

end Parts

/-! ### Digits of any script and ASCII digits -/

theorem isDigit_digitChar {d : Nat} (h : d < 10) : isDigit (Nat.digitChar d) = true := by
  simp only [isDigit, Nat.toNat_digitChar_of_lt_ten h, Bool.and_eq_true, decide_eq_true_eq]
  omega

theorem asciiDigit_of_value {c : Char} {d : Nat} (h : digitValue? c = some d) : asciiDigit c = Nat.digitChar d := by
  simp [asciiDigit, h]

/-- A character that is no digit of any script is no ASCII digit either, and stands for itself. -/
theorem isDigit_asciiDigit (c : Char) : isDigit (asciiDigit c) = (digitValue? c).isSome := by
  cases h : digitValue? c with
  | some d => rw [asciiDigit_of_value h, isDigit_digitChar (digitValue?_lt h), Option.isSome_some]
  | none =>
    have hself : asciiDigit c = c := by simp [asciiDigit, h]
    rw [hself, Option.isSome_none, Bool.eq_false_iff]
    intro hd
    -- The ASCII digits are a script among the others.
    have hfirst := List.findSome?_eq_none_iff.1 h 0x30 (by simp [digitZeros])
    simp only [isDigit, Bool.and_eq_true, decide_eq_true_eq] at hd
    rw [if_pos (by omega)] at hfirst
    cases hfirst

/-- Reading digits in ASCII changes no character that is not a digit. -/
theorem asciiDigit_eq_iff {c x : Char} (hx : digitValue? x = none) : asciiDigit c = x ↔ c = x := by
  have hself : asciiDigit x = x := by simp [asciiDigit, hx]
  constructor
  · intro h
    cases hc : digitValue? c with
    | none => simpa [asciiDigit, hc] using h
    | some d =>
      have hdigit := isDigit_asciiDigit c
      rw [h, ← hself, isDigit_asciiDigit, hx, hc] at hdigit
      cases hdigit
  · rintro rfl
    exact hself

theorem Digits.map_asciiDigit {s : List Char} {values : List Nat} (h : Digits s values) :
    s.map asciiDigit = values.map Nat.digitChar := by
  induction h with
  | nil => rfl
  | cons hc _ ih => rw [List.map_cons, List.map_cons, asciiDigit_of_value hc, ih]

theorem Digits.lt {s : List Char} {values : List Nat} (h : Digits s values) : ∀ d ∈ values, d < 10 := by
  induction h with
  | nil => simp
  | cons hc _ ih => exact List.forall_mem_cons.2 ⟨digitValue?_lt hc, ih⟩

theorem Digits.isSome {s : List Char} {values : List Nat} (h : Digits s values) :
    ∀ c ∈ s, (digitValue? c).isSome = true := by
  induction h with
  | nil => simp
  | cons hc _ ih => exact List.forall_mem_cons.2 ⟨by rw [hc, Option.isSome_some], ih⟩

theorem digits_of_isSome {s : List Char} (h : ∀ c ∈ s, (digitValue? c).isSome = true) : ∃ values, Digits s values := by
  induction s with
  | nil => exact ⟨[], .nil⟩
  | cons c rest ih =>
    obtain ⟨hc, hrest⟩ := List.forall_mem_cons.1 h
    obtain ⟨d, hd⟩ := Option.isSome_iff_exists.1 hc
    obtain ⟨values, hvalues⟩ := ih hrest
    exact ⟨d :: values, .cons hd hvalues⟩

theorem digits_nil_iff {s : List Char} {values : List Nat} (h : Digits s values) : s = [] ↔ values = [] := by
  cases h <;> simp

theorem natOfDigits_digitChars {values : List Nat} (h : ∀ d ∈ values, d < 10) :
    natOfDigits (values.map Nat.digitChar) = number values := by
  induction values using List.reverseRecOn with
  | nil => rfl
  | append_singleton rest d ih =>
    have hd : d < 10 := h d (by simp)
    have hrest := ih fun e he => h e (List.mem_append_left _ he)
    rw [List.map_append, natOfDigits_append, hrest]
    simp only [number, List.map_cons, List.map_nil, List.foldl_cons, List.foldl_nil,
      Nat.toNat_digitChar_of_lt_ten hd, List.reverse_append, List.reverse_cons, List.reverse_nil, List.nil_append,
      List.cons_append, Nat.ofDigits_cons]
    omega

/-! ### Reading the parts one after the other -/

theorem splitSign_of_sign {sign rest : List Char} {negative : Bool} (h : Sign sign negative)
    (hrest : sign = [] → ∀ c ∈ rest.head?, c ≠ '-' ∧ c ≠ '+') :
    Decimal.splitSign ((sign ++ rest).map asciiDigit) = (negative, rest.map asciiDigit) := by
  cases h with
  | plus => rfl
  | minus => rfl
  | absent =>
    cases rest with
    | nil => rfl
    | cons c r =>
      obtain ⟨hminus, hplus⟩ := hrest rfl c rfl
      rw [List.nil_append, List.map_cons]
      unfold Decimal.splitSign
      split
      · rename_i he
        exact absurd ((asciiDigit_eq_iff (by decide)).1 (List.cons.inj he).1) hminus
      · rename_i he
        exact absurd ((asciiDigit_eq_iff (by decide)).1 (List.cons.inj he).1) hplus
      · rfl

theorem exists_sign (t : List Char) : ∃ sign rest negative, t = sign ++ rest ∧ Sign sign negative ∧
    (sign = [] → ∀ c ∈ rest.head?, c ≠ '-' ∧ c ≠ '+') := by
  match t with
  | '-' :: r => exact ⟨['-'], r, true, rfl, .minus, by simp⟩
  | '+' :: r => exact ⟨['+'], r, false, rfl, .plus, by simp⟩
  | [] => exact ⟨[], [], false, rfl, .absent, by simp⟩
  | c :: r =>
    by_cases hminus : c = '-'
    · exact ⟨['-'], r, true, by rw [hminus]; rfl, .minus, by simp⟩
    by_cases hplus : c = '+'
    · exact ⟨['+'], r, false, by rw [hplus]; rfl, .plus, by simp⟩
    · exact ⟨[], c :: r, false, rfl, .absent, by simp [hminus, hplus]⟩

theorem splitDigits_of_digits {s rest : List Char} {values : List Nat} (h : Digits s values)
    (hrest : ∀ c ∈ rest.head?, digitValue? c = none) :
    Decimal.splitDigits ((s ++ rest).map asciiDigit) = (values.map Nat.digitChar, rest.map asciiDigit) := by
  have hall : ∀ c ∈ s.map asciiDigit, isDigit c = true := by
    intro c hc
    obtain ⟨x, hx, rfl⟩ := List.mem_map.1 hc
    rw [isDigit_asciiDigit]
    exact h.isSome x hx
  have hstop : (rest.map asciiDigit).takeWhile isDigit = [] ∧
      (rest.map asciiDigit).dropWhile isDigit = rest.map asciiDigit := by
    cases rest with
    | nil => exact ⟨rfl, rfl⟩
    | cons c r =>
      have hc : isDigit (asciiDigit c) = false := by rw [isDigit_asciiDigit, hrest c rfl, Option.isSome_none]
      simp [hc]
  rw [Decimal.splitDigits, List.map_append, List.takeWhile_append_of_pos hall, List.dropWhile_append_of_pos hall,
    hstop.1, hstop.2, List.append_nil, h.map_asciiDigit]

theorem exists_digits (t : List Char) : ∃ s rest values, t = s ++ rest ∧ Digits s values ∧
    ∀ c ∈ rest.head?, digitValue? c = none := by
  let p : Char → Bool := fun c => (digitValue? c).isSome
  obtain ⟨values, hvalues⟩ := digits_of_isSome (List.all_eq_true.1 (List.all_takeWhile (p := p) (l := t)))
  refine ⟨t.takeWhile p, t.dropWhile p, values, List.takeWhile_append_dropWhile.symm, hvalues, fun c hc => ?_⟩
  have hnot := List.head?_dropWhile_not p t
  rw [hc] at hnot
  simpa [p] using hnot

theorem splitPoint_of_mantissa {mantissa rest : List Char} {whole places : List Nat}
    (h : Mantissa mantissa whole places) (hrest : ∀ c ∈ rest.head?, digitValue? c = none ∧ c ≠ '.') :
    Decimal.splitPoint ((mantissa ++ rest).map asciiDigit) =
      (whole.map Nat.digitChar, places.map Nat.digitChar, rest.map asciiDigit) := by
  have hstop (c : Char) (hc : c ∈ rest.head?) : digitValue? c = none := (hrest c hc).1
  cases h with
  | whole h =>
    simp only [Decimal.splitPoint]
    rw [splitDigits_of_digits h hstop]
    split
    · rename_i r he
      cases rest with
      | nil => cases he
      | cons c r =>
        have hpoint := (asciiDigit_eq_iff (by decide)).1 (List.cons.inj he).1
        exact absurd hpoint (hrest c rfl).2
    · rfl
  | @pointed s t values places h ht =>
    have hpoint : ∀ c ∈ ('.' :: (t ++ rest)).head?, digitValue? c = none := by
      intro c hc
      cases hc
      decide
    have hdot : asciiDigit '.' = '.' := by decide
    rw [List.append_assoc, List.cons_append]
    simp only [Decimal.splitPoint]
    rw [splitDigits_of_digits h hpoint, List.map_cons, hdot]
    simp only
    rw [splitDigits_of_digits ht hstop]

theorem exists_mantissa (t : List Char) : ∃ mantissa rest whole places, t = mantissa ++ rest ∧
    Mantissa mantissa whole places ∧ Decimal.splitPoint (t.map asciiDigit) =
      (whole.map Nat.digitChar, places.map Nat.digitChar, rest.map asciiDigit) := by
  obtain ⟨s, rest, values, rfl, hs, hrest⟩ := exists_digits t
  -- A point belongs to the mantissa even if no digit stands behind it.
  by_cases hpoint : ∃ r, rest = '.' :: r
  · obtain ⟨r, rfl⟩ := hpoint
    obtain ⟨s', rest', places, rfl, hs', hrest'⟩ := exists_digits r
    refine ⟨s ++ '.' :: s', rest', values, places, by simp, .pointed hs hs', ?_⟩
    have hdot : asciiDigit '.' = '.' := by decide
    simp only [Decimal.splitPoint]
    rw [splitDigits_of_digits hs hrest, List.map_cons, hdot]
    simp only
    rw [splitDigits_of_digits hs' hrest']
  · refine ⟨s, rest, values, [], rfl, .whole hs, splitPoint_of_mantissa (.whole hs) fun c hc => ⟨hrest c hc, ?_⟩⟩
    rintro rfl
    cases rest with
    | nil => cases hc
    | cons x r =>
      cases hc
      exact hpoint ⟨r, rfl⟩

theorem all_isDigit {values : List Nat} (h : ∀ d ∈ values, d < 10) :
    (values.map Nat.digitChar).all isDigit = true := by
  rw [List.all_map, List.all_eq_true]
  exact fun d hd => isDigit_digitChar (h d hd)

theorem splitExponent?_of_exponent {s : List Char} {negative : Bool} {values : List Nat}
    (h : Exponent s negative values) :
    Decimal.splitExponent? (s.map asciiDigit) = some (negative, values.map Nat.digitChar) := by
  cases h with
  | absent => rfl
  | @marked mark sign s negative values hm hsign h hne =>
    have hmark : asciiDigit mark = mark := by rcases hm with rfl | rfl <;> decide
    have hstop : sign = [] → ∀ c ∈ s.head?, c ≠ '-' ∧ c ≠ '+' := by
      intro _ c hc
      have hdigit := h.isSome c (List.mem_of_head? hc)
      constructor <;> rintro rfl <;> exact absurd hdigit (by decide)
    simp only [List.map_cons, Decimal.splitExponent?, hmark]
    rw [if_pos hm, splitSign_of_sign hsign hstop, h.map_asciiDigit]
    simp only
    rw [if_pos ⟨by simpa using hne, all_isDigit h.lt⟩]

theorem exponent_of_splitExponent? {s : List Char} {negative : Bool} {digits : List Char}
    (h : Decimal.splitExponent? (s.map asciiDigit) = some (negative, digits)) :
    ∃ values, Exponent s negative values ∧ digits = values.map Nat.digitChar := by
  cases s with
  | nil =>
    cases h
    exact ⟨[], .absent, rfl⟩
  | cons mark r =>
    simp only [List.map_cons, Decimal.splitExponent?] at h
    split at h
    · rename_i hm
      have hmark : mark = 'e' ∨ mark = 'E' := hm.imp (asciiDigit_eq_iff (by decide)).1 (asciiDigit_eq_iff (by decide)).1
      obtain ⟨sign, rest, signed, rfl, hsign, hrest⟩ := exists_sign r
      rw [splitSign_of_sign hsign hrest] at h
      simp only at h
      split at h
      · rename_i hdigits
        cases h
        have hsome : ∀ c ∈ rest, (digitValue? c).isSome = true := by
          intro c hc
          rw [← isDigit_asciiDigit]
          exact List.all_eq_true.1 hdigits.2 _ (List.mem_map_of_mem hc)
        obtain ⟨values, hvalues⟩ := digits_of_isSome hsome
        refine ⟨values, .marked hmark hsign hvalues ?_, hvalues.map_asciiDigit⟩
        have hne : rest ≠ [] := by simpa using hdigits.1
        exact (digits_nil_iff hvalues).not.1 hne
      · cases h
    · cases h

/-- The head of what stands behind the sign. -/
theorem head_of_mantissa {mantissa exponent : List Char} {whole places : List Nat} (h : Mantissa mantissa whole places)
    (hne : whole ++ places ≠ []) : ∀ c ∈ (mantissa ++ exponent).head?, c ≠ '-' ∧ c ≠ '+' := by
  have hdigit {c : Char} (hc : (digitValue? c).isSome = true) : c ≠ '-' ∧ c ≠ '+' := by
    constructor <;> rintro rfl <;> exact absurd hc (by decide)
  intro c hc
  cases h with
  | whole h =>
    rw [List.append_nil] at hne
    cases h with
    | nil => exact absurd rfl hne
    | cons hd _ =>
      cases hc
      exact hdigit (by rw [hd, Option.isSome_some])
  | pointed h _ =>
    cases h with
    | nil =>
      cases hc
      decide
    | cons hd _ =>
      cases hc
      exact hdigit (by rw [hd, Option.isSome_some])

theorem head_of_exponent {s : List Char} {negative : Bool} {values : List Nat} (h : Exponent s negative values) :
    ∀ c ∈ s.head?, digitValue? c = none ∧ c ≠ '.' := by
  intro c hc
  cases h with
  | absent => cases hc
  | marked hm _ _ _ =>
    cases hc
    rcases hm with rfl | rfl <;> decide

/-- Reading a text, digits in ASCII, gives the parts that the grammar derives. -/
theorem ofChars?_eq_some_iff {t : List Char} {n : Numeral} :
    Numeral.ofChars? (t.map asciiDigit) = some n ↔ ∃ p, Spells t p ∧ p.numeral = n := by
  constructor
  · intro h
    obtain ⟨sign, rest, negative, rfl, hsign, hrest⟩ := exists_sign t
    obtain ⟨mantissa, exponent, whole, places, rfl, hmantissa, hsplit⟩ := exists_mantissa rest
    simp only [Numeral.ofChars?] at h
    rw [splitSign_of_sign hsign hrest] at h
    simp only at h
    rw [hsplit] at h
    simp only at h
    split at h
    · cases h
    rename_i hne
    obtain ⟨⟨exponentNegative, digits⟩, he, rfl⟩ := Option.map_eq_some_iff.1 h
    obtain ⟨values, hvalues, rfl⟩ := exponent_of_splitExponent? he
    have hsome : whole ++ places ≠ [] := by simpa using hne
    exact ⟨⟨negative, whole, places, exponentNegative, values⟩, .of hsign hmantissa hsome hvalues, rfl⟩
  · rintro ⟨p, ⟨hs, hm, hne, he⟩, rfl⟩
    simp only [Numeral.ofChars?]
    rw [splitSign_of_sign hs fun _ => head_of_mantissa hm hne]
    simp only
    rw [splitPoint_of_mantissa hm (head_of_exponent he)]
    simp only
    rw [if_neg (by simpa using hne), splitExponent?_of_exponent he]
    rfl

theorem digitCount_eq (c : Nat) : digitCount c = Nat.log 10 c + 1 := by
  have hle (k : Nat) (hk : 0 < k) : digitCount c ≤ k ↔ c < 10 ^ k := Nat.length_toDigits_le_iff (by decide) hk
  have hpos : 0 < digitCount c := Nat.length_toDigits_pos
  have hup := (hle (Nat.log 10 c + 1) (by omega)).2 (Nat.lt_pow_succ_log_self (by decide) c)
  have hlow := Nat.log_lt_of_lt_pow' (by omega) ((hle (digitCount c) hpos).1 le_rfl)
  omega

/-- Within the limits: how far the leading digit and the last one may stand from the point. -/
theorem within_iff (c : Nat) (e : Int) : Decimal.Within c e ↔
    e + Nat.log 10 c ≤ 999999999999999999 ∧ -1999999999999999997 ≤ e := by
  simp only [Decimal.Within, Decimal.maxAdjusted, Decimal.minExponent, digitCount_eq]
  omega

/-- The parts of a decimal are those that are written. -/
def Reads (d : Decimal) (p : Parts) : Prop :=
  d.negative = p.negative ∧ d.coefficient = p.coefficient ∧ d.exponent = p.scale

theorem Mantissa.lt {s : List Char} {whole places : List Nat} (h : Mantissa s whole places) :
    ∀ d ∈ whole ++ places, d < 10 := by
  cases h with
  | whole h =>
    rw [List.append_nil]
    exact h.lt
  | pointed h ht => exact List.forall_mem_append.2 ⟨h.lt, ht.lt⟩

theorem Exponent.lt {s : List Char} {negative : Bool} {values : List Nat} (h : Exponent s negative values) :
    ∀ d ∈ values, d < 10 := by
  cases h with
  | absent => simp
  | marked _ _ h _ => exact h.lt

theorem numeral_spec {t : List Char} {p : Parts} (h : Spells t p) :
    p.numeral.coefficient = p.coefficient ∧ p.numeral.scale = p.scale := by
  obtain ⟨-, hm, -, he⟩ := h
  constructor
  · rw [Numeral.coefficient, Parts.numeral, ← List.map_append, natOfDigits_digitChars hm.lt]
    rfl
  · simp only [Numeral.scale, Parts.numeral, natOfDigits_digitChars he.lt, List.length_map]
    rfl

/-- The characters of a text that count, in the script they are written in. -/
def body (s : String) : List Char := (strip s.toList).filter (· ≠ '_')

theorem toDecimal?_text_eq_some_iff {s : String} {d : Decimal} :
    (Value.text s).toDecimal? = some d ↔ ∃ p, Spells (body s) p ∧ Reads d p := by
  have hread : (Value.text s).toDecimal? =
      (Numeral.ofChars? ((body s).map asciiDigit)).bind fun n => Decimal.mk? n.negative n.coefficient n.scale := rfl
  rw [hread, Option.bind_eq_some_iff]
  constructor
  · rintro ⟨n, hn, hd⟩
    obtain ⟨p, hp, rfl⟩ := ofChars?_eq_some_iff.1 hn
    obtain ⟨hcoefficient, hscale⟩ := numeral_spec hp
    rw [hcoefficient, hscale] at hd
    exact ⟨p, hp, Decimal.mk?_eq_some_iff.1 hd⟩
  · rintro ⟨p, hp, hd⟩
    obtain ⟨hcoefficient, hscale⟩ := numeral_spec hp
    refine ⟨p.numeral, ofChars?_eq_some_iff.2 ⟨p, hp, rfl⟩, ?_⟩
    rw [hcoefficient, hscale]
    exact Decimal.mk?_eq_some_iff.2 hd

/-- A text is spelled in one way only. -/
theorem numeral_unique {t : List Char} {p q : Parts} (hp : Spells t p) (hq : Spells t q) : p.numeral = q.numeral :=
  Option.some.inj ((ofChars?_eq_some_iff.2 ⟨p, hp, rfl⟩).symm.trans (ofChars?_eq_some_iff.2 ⟨q, hq, rfl⟩))

/-- A word for what is no number, in any case: infinity, or not-a-number with digits behind it. -/
inductive Word : List Char → Prop
  | infinite {w : List Char} (h : w.map Char.toLower = "inf".toList ∨ w.map Char.toLower = "infinity".toList) : Word w
  | nan {w payload : List Char} {values : List Nat}
      (h : w.map Char.toLower = "nan".toList ∨ w.map Char.toLower = "snan".toList) (hp : Digits payload values) :
      Word (w ++ payload)

/-- The characters of a numeral. -/
def Counts (c : Char) : Prop := (digitValue? c).isSome = true ∨ c ∈ ['+', '-', '.', 'e', 'E']

theorem Sign.counts {s : List Char} {negative : Bool} (h : Sign s negative) : ∀ c ∈ s, Counts c := by
  cases h <;> simp [Counts]

theorem Digits.counts {s : List Char} {values : List Nat} (h : Digits s values) : ∀ c ∈ s, Counts c :=
  fun c hc => .inl (h.isSome c hc)

theorem Mantissa.counts {s : List Char} {whole places : List Nat} (h : Mantissa s whole places) :
    ∀ c ∈ s, Counts c := by
  cases h with
  | whole h => exact h.counts
  | pointed h ht => exact List.forall_mem_append.2 ⟨h.counts, List.forall_mem_cons.2 ⟨by simp [Counts], ht.counts⟩⟩

theorem Exponent.counts {s : List Char} {negative : Bool} {values : List Nat} (h : Exponent s negative values) :
    ∀ c ∈ s, Counts c := by
  cases h with
  | absent => simp
  | marked hmark hsign h _ =>
    refine List.forall_mem_cons.2 ⟨?_, List.forall_mem_append.2 ⟨hsign.counts, h.counts⟩⟩
    rcases hmark with rfl | rfl <;> simp [Counts]

theorem Spells.counts {t : List Char} {p : Parts} (h : Spells t p) : ∀ c ∈ t, Counts c := by
  obtain ⟨hs, hm, -, he⟩ := h
  exact List.forall_mem_append.2 ⟨hs.counts, List.forall_mem_append.2 ⟨hm.counts, he.counts⟩⟩

/-- Every word for what is no number has an `n` in it. -/
theorem Word.mem {w : List Char} (h : Word w) : ∃ c ∈ w, c.toLower = 'n' := by
  have hmem {w : List Char} {word : String} (h : w.map Char.toLower = word.toList) (hn : 'n' ∈ word.toList) :
      ∃ c ∈ w, c.toLower = 'n' := by
    rw [← h] at hn
    exact List.mem_map.1 hn
  cases h with
  | infinite h => exact h.elim (hmem · (by decide)) (hmem · (by decide))
  | nan h _ =>
    obtain ⟨c, hc, hn⟩ := h.elim (hmem · (by decide)) (hmem · (by decide))
    exact ⟨c, List.mem_append_left _ hc, hn⟩

theorem eq_of_toLower {c : Char} (h : c.toLower = 'n') : c = 'n' ∨ c = 'N' := by
  unfold Char.toLower at h
  split at h
  · rename_i hupper
    have hmax : c.val.toNat ≤ 90 := UInt32.le_iff_toNat_le.1 hupper.2
    have hval : (c.val + 32).toNat = 110 := congrArg (fun x : Char => x.val.toNat) h
    have hsum : (c.val + 32).toNat = (c.val.toNat + 32) % 2 ^ 32 := UInt32.toNat_add c.val 32
    have hcode : c.val.toNat = 78 := by omega
    exact .inr (Char.ext (UInt32.toNat_inj.1 hcode))
  · exact .inl h

theorem not_spells_word {sign word : List Char} {p : Parts} (hw : Word word) : ¬Spells (sign ++ word) p := by
  intro h
  obtain ⟨c, hc, hlower⟩ := hw.mem
  have hcounts := h.counts c (List.mem_append_right _ hc)
  rcases eq_of_toLower hlower with rfl | rfl <;> exact absurd hcounts (by unfold Counts; decide)

/-- A text gives a decimal exactly if it spells one within the limits, and the decimal has the sign, the coefficient and
the exponent that are written; the words for what is no number give none. -/
theorem spelled_numbers_are_read_exactly (s : String) :
    ((Value.text s).toDecimal?.isSome = true ↔ ∃ p, Spells (body s) p ∧
      p.scale + Nat.log 10 p.coefficient ≤ 999999999999999999 ∧ -1999999999999999997 ≤ p.scale) ∧
    (∀ p d, Spells (body s) p → (Value.text s).toDecimal? = some d →
      d.negative = p.negative ∧ d.coefficient = p.coefficient ∧ d.exponent = p.scale) ∧
    ∀ sign word negative, Sign sign negative → Word word → body s = sign ++ word →
      (Value.text s).toDecimal? = none := by
  refine ⟨⟨fun h => ?_, ?_⟩, fun p d hp hd => ?_, fun sign word negative _ hw hbody => ?_⟩
  · obtain ⟨d, hd⟩ := Option.isSome_iff_exists.1 h
    obtain ⟨p, hp, -, hcoefficient, hexponent⟩ := toDecimal?_text_eq_some_iff.1 hd
    refine ⟨p, hp, (within_iff _ _).1 ?_⟩
    rw [← hcoefficient, ← hexponent]
    exact d.within
  · rintro ⟨p, hp, hlimits⟩
    have hwithin := (within_iff p.coefficient p.scale).2 hlimits
    exact Option.isSome_iff_exists.2
      ⟨⟨p.negative, p.coefficient, p.scale, hwithin⟩, toDecimal?_text_eq_some_iff.2 ⟨p, hp, rfl, rfl, rfl⟩⟩
  · obtain ⟨q, hq, hnegative, hcoefficient, hexponent⟩ := toDecimal?_text_eq_some_iff.1 hd
    have hnumeral := numeral_unique hq hp
    obtain ⟨hqc, hqs⟩ := numeral_spec hq
    obtain ⟨hpc, hps⟩ := numeral_spec hp
    refine ⟨hnegative.trans (congrArg Numeral.negative hnumeral), ?_, ?_⟩
    · rw [hcoefficient, ← hqc, hnumeral, hpc]
    · rw [hexponent, ← hqs, hnumeral, hps]
  · cases hd : (Value.text s).toDecimal? with
    | none => rfl
    | some d =>
      obtain ⟨p, hp, -⟩ := toDecimal?_text_eq_some_iff.1 hd
      rw [hbody] at hp
      exact absurd hp (not_spells_word hw)

/-- A text with blanks around it, an underscore and a digit of another script. -/
theorem spelled_numbers_are_read_exactly_across_scripts :
    (Value.text "\u00a0-1_2.\u0663e+04 ").toDecimal?.isSome = true ∧
      (∀ d, (Value.text "\u00a0-1_2.\u0663e+04 ").toDecimal? = some d →
        d.negative = true ∧ d.coefficient = 123 ∧ d.exponent = 3) ∧
      (Value.text " -sNa_N12").toDecimal? = none := by
  have hspells : Spells (body "\u00a0-1_2.\u0663e+04 ") ⟨true, [1, 2], [3], false, [0, 4]⟩ := by
    have hparts : body "\u00a0-1_2.\u0663e+04 " =
        ['-'] ++ (("12".toList ++ '.' :: "\u0663".toList) ++ 'e' :: (['+'] ++ "04".toList)) := by decide +kernel
    rw [hparts]
    exact .of .minus (.pointed (.cons (by decide) (.cons (by decide) .nil)) (.cons (by decide) .nil)) (by simp)
      (.marked (.inl rfl) .plus (.cons (by decide) (.cons (by decide) .nil)) (by simp))
  refine ⟨(spelled_numbers_are_read_exactly _).1.2 ⟨_, hspells, ?_⟩,
    fun d hd => (spelled_numbers_are_read_exactly _).2.1 _ d hspells hd,
    (spelled_numbers_are_read_exactly _).2.2 ['-'] ("sNaN".toList ++ "12".toList) true .minus ?_ (by decide +kernel)⟩
  · have hcoefficient : Nat.log 10 123 = 2 := by rw [Nat.log_eq_iff] <;> norm_num
    have hparts : (⟨true, [1, 2], [3], false, [0, 4]⟩ : Parts).coefficient = 123 ∧
      (⟨true, [1, 2], [3], false, [0, 4]⟩ : Parts).scale = 3 := by decide
    rw [hparts.1, hparts.2, hcoefficient]
    decide
  · have hpayload : Digits "12".toList [1, 2] := .cons (by decide) (.cons (by decide) .nil)
    exact .nan (.inr (by decide)) hpayload

end Spelling

end FeedLedger
