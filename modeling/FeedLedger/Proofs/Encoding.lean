import FeedLedger.Text.Percent
import Mathlib.Tactic.Common

namespace FeedLedger.Text

/-! ### UTF-8 -/

theorem follower_bounds {k : Nat} (h : k < 64) :
    0x80 ≤ UInt8.ofNat (k + 128) ∧ UInt8.ofNat (k + 128) ≤ 0xBF := by
  simp only [UInt8.le_iff_toNat_le, UInt8.toNat_ofNat']
  constructor
  · change 128 ≤ (k + 128) % 256
    omega
  · change (k + 128) % 256 ≤ 191
    omega

theorem followers?_two : ∀ k < 32, 2 ≤ k → followers? (UInt8.ofNat (k + 192)) = some (1, 0x80, 0xBF) := by decide

theorem followers?_three : ∀ k < 16, followers? (UInt8.ofNat (k + 224)) =
    some (2, if k = 0 then 0xA0 else 0x80, if k = 13 then 0x9F else 0xBF) := by decide

theorem followers?_four : ∀ k < 5, followers? (UInt8.ofNat (k + 240)) =
    some (3, if k = 0 then 0x90 else 0x80, if k = 4 then 0x8F else 0xBF) := by decide

theorem continued_zero (low high : UInt8) (r : List UInt8) : continued 0 low high r = 0 := by
  cases r <;> rfl

theorem continued_succ {low high b : UInt8} (n : Nat) (r : List UInt8) (h : low ≤ b ∧ b ≤ high) :
    continued (n + 1) low high (b :: r) = continued n 0x80 0xBF r + 1 := by
  simp [continued, h]

theorem firstChar_of_followers {b low high : UInt8} {r : List UInt8} {n : Nat} (hb : ¬b < 0x80)
    (hf : followers? b = some (n, low, high)) (hc : continued n low high r = n) :
    firstChar b r = (some (Char.ofNat ((r.take n).foldl (fun v c => 64 * v + c.toNat % 64)
      (b.toNat % Nat.pow 2 (6 - n)))), n + 1) := by
  simp [firstChar, hb, hf, hc]

theorem not_lt_ascii {k : Nat} (h : 128 ≤ k) (hk : k < 256) : ¬UInt8.ofNat k < 0x80 := by
  rw [UInt8.lt_iff_toNat_lt, UInt8.toNat_ofNat']
  change ¬k % 256 < 128
  omega

theorem firstChar_two {v : Nat} (hlow : 127 < v) (hhigh : v ≤ 2047) (rest : List UInt8) :
    firstChar (UInt8.ofNat (v / 64 % 32 + 192)) (UInt8.ofNat (v % 64 + 128) :: rest) = (some (Char.ofNat v), 2) := by
  obtain ⟨hge, hle⟩ := follower_bounds (k := v % 64) (by omega)
  have hf := followers?_two (v / 64 % 32) (by omega) (by omega)
  rw [firstChar_of_followers (not_lt_ascii (by omega) (by omega)) hf]
  · simp only [List.take_succ_cons, List.take_zero, List.foldl_cons, List.foldl_nil, UInt8.toNat_ofNat']
    congr 3
    change 64 * ((v / 64 % 32 + 192) % 256 % 32) + (v % 64 + 128) % 256 % 64 = v
    omega
  · rw [continued_succ _ _ ⟨hge, hle⟩, continued_zero]

theorem firstChar_three {v : Nat} (hlow : 2047 < v) (hhigh : v ≤ 65535) (hv : v.isValidChar) (rest : List UInt8) :
    firstChar (UInt8.ofNat (v / 4096 % 16 + 224))
      (UInt8.ofNat (v / 64 % 64 + 128) :: UInt8.ofNat (v % 64 + 128) :: rest) = (some (Char.ofNat v), 3) := by
  obtain ⟨hge, hle⟩ := follower_bounds (k := v / 64 % 64) (by omega)
  obtain ⟨hge', hle'⟩ := follower_bounds (k := v % 64) (by omega)
  have hf := followers?_three (v / 4096 % 16) (by omega)
  rw [firstChar_of_followers (not_lt_ascii (by omega) (by omega)) hf]
  · simp only [List.take_succ_cons, List.take_zero, List.foldl_cons, List.foldl_nil, UInt8.toNat_ofNat']
    congr 3
    change 64 * (64 * ((v / 4096 % 16 + 224) % 256 % 16) + (v / 64 % 64 + 128) % 256 % 64) +
      (v % 64 + 128) % 256 % 64 = v
    omega
  · -- The least lead takes no short forms, and one lead would begin surrogates.
    have hsecond : (if v / 4096 % 16 = 0 then 0xA0 else 0x80) ≤ UInt8.ofNat (v / 64 % 64 + 128) ∧
        UInt8.ofNat (v / 64 % 64 + 128) ≤ if v / 4096 % 16 = 13 then 0x9F else 0xBF := by
      constructor
      · split
        · rw [UInt8.le_iff_toNat_le, UInt8.toNat_ofNat']
          change 160 ≤ (v / 64 % 64 + 128) % 256
          omega
        · exact hge
      · split
        · rw [UInt8.le_iff_toNat_le, UInt8.toNat_ofNat']
          change (v / 64 % 64 + 128) % 256 ≤ 159
          unfold Nat.isValidChar at hv
          omega
        · exact hle
    rw [continued_succ _ _ hsecond, continued_succ _ _ ⟨hge', hle'⟩, continued_zero]

theorem firstChar_four {v : Nat} (hlow : 65535 < v) (hv : v.isValidChar) (rest : List UInt8) :
    firstChar (UInt8.ofNat (v / 262144 % 8 + 240)) (UInt8.ofNat (v / 4096 % 64 + 128) ::
      UInt8.ofNat (v / 64 % 64 + 128) :: UInt8.ofNat (v % 64 + 128) :: rest) = (some (Char.ofNat v), 4) := by
  have hmax : v < 1114112 := by
    unfold Nat.isValidChar at hv
    omega
  obtain ⟨hge, hle⟩ := follower_bounds (k := v / 4096 % 64) (by omega)
  obtain ⟨hge', hle'⟩ := follower_bounds (k := v / 64 % 64) (by omega)
  obtain ⟨hge'', hle''⟩ := follower_bounds (k := v % 64) (by omega)
  have hf := followers?_four (v / 262144 % 8) (by omega)
  rw [firstChar_of_followers (not_lt_ascii (by omega) (by omega)) hf]
  · simp only [List.take_succ_cons, List.take_zero, List.foldl_cons, List.foldl_nil, UInt8.toNat_ofNat']
    congr 3
    change 64 * (64 * (64 * ((v / 262144 % 8 + 240) % 256 % 8) + (v / 4096 % 64 + 128) % 256 % 64) +
      (v / 64 % 64 + 128) % 256 % 64) + (v % 64 + 128) % 256 % 64 = v
    omega
  · have hsecond : (if v / 262144 % 8 = 0 then 0x90 else 0x80) ≤ UInt8.ofNat (v / 4096 % 64 + 128) ∧
        UInt8.ofNat (v / 4096 % 64 + 128) ≤ if v / 262144 % 8 = 4 then 0x8F else 0xBF := by
      constructor
      · split
        · rw [UInt8.le_iff_toNat_le, UInt8.toNat_ofNat']
          change 144 ≤ (v / 4096 % 64 + 128) % 256
          omega
        · exact hge
      · split
        · rw [UInt8.le_iff_toNat_le, UInt8.toNat_ofNat']
          change (v / 4096 % 64 + 128) % 256 ≤ 143
          omega
        · exact hle
    rw [continued_succ _ _ hsecond, continued_succ _ _ ⟨hge', hle'⟩, continued_succ _ _ ⟨hge'', hle''⟩, continued_zero]

/-- The bytes of a character are read as that character, whatever follows. -/
theorem readUtf8_utf8EncodeChar_append (c : Char) (rest : List UInt8) :
    readUtf8 (String.utf8EncodeChar c ++ rest) = some c :: readUtf8 rest := by
  have hself : Char.ofNat c.val.toNat = c := Char.ofNat_toNat c
  have hvalid : c.val.toNat.isValidChar := c.valid
  simp only [String.utf8EncodeChar]
  split
  · rename_i hlow
    have hascii : UInt8.ofNat c.val.toNat < 0x80 := by
      rw [UInt8.lt_iff_toNat_lt, UInt8.toNat_ofNat']
      change c.val.toNat % 256 < 128
      omega
    have hbyte : (UInt8.ofNat c.val.toNat).toNat = c.val.toNat := by
      rw [UInt8.toNat_ofNat']
      omega
    rw [List.singleton_append, readUtf8, firstChar, if_pos hascii, hbyte, hself]
    rfl
  · rename_i hlow
    split
    · rename_i hhigh
      simp only [List.cons_append, List.nil_append]
      rw [readUtf8, firstChar_two (by omega) hhigh, hself]
      rfl
    rename_i hlow
    split
    · rename_i hhigh
      simp only [List.cons_append, List.nil_append]
      rw [readUtf8, firstChar_three (by omega) hhigh hvalid, hself]
      rfl
    · simp only [List.cons_append, List.nil_append]
      rw [readUtf8, firstChar_four (by omega) hvalid, hself]
      rfl

theorem readUtf8_encode (t : List Char) : readUtf8 (t.flatMap String.utf8EncodeChar) = t.map some := by
  induction t with
  | nil =>
    rw [List.flatMap_nil, readUtf8]
    rfl
  | cons c rest ih => rw [List.flatMap_cons, readUtf8_utf8EncodeChar_append, ih, List.map_cons]

theorem ofUtf8Lossy_utf8Bytes (s : String) : ofUtf8Lossy (utf8Bytes s) = s := by
  rw [ofUtf8Lossy, utf8Bytes, readUtf8_encode, List.map_map]
  have hsome : ((fun o : Option Char => o.getD (Char.ofNat 0xFFFD)) ∘ some) = id := rfl
  rw [hsome, List.map_id, String.ofList_toList]

/-! ### Percent-encoding -/

/-- Characters that may stand in a segment of a path for themselves. -/
def isPlain (c : Char) : Bool := c.isAlphanum || "-._~!$&'()*+,;=:@".toList.contains c

def hexDigit (upper : Bool) (n : Nat) : Char := if upper then (Nat.digitChar n).toUpper else Nat.digitChar n

/-- A segment encodes bytes if each one stands for itself or is escaped, with digits in any case. -/
inductive Encodes : List Char → List UInt8 → Prop
  | nil : Encodes [] []
  | plain {c : Char} {s : List Char} {bytes : List UInt8} (h : isPlain c = true) (hs : Encodes s bytes) :
      Encodes (c :: s) (UInt8.ofNat c.toNat :: bytes)
  | escaped {s : List Char} {bytes : List UInt8} (first second : Bool) (b : UInt8) (hs : Encodes s bytes) :
      Encodes ('%' :: hexDigit first (b.toNat / 16) :: hexDigit second (b.toNat % 16) :: s) (b :: bytes)

theorem code_of_isAlphanum {c : Char} (h : c.isAlphanum = true) :
    (65 ≤ c.toNat ∧ c.toNat ≤ 90 ∨ 97 ≤ c.toNat ∧ c.toNat ≤ 122) ∨ 48 ≤ c.toNat ∧ c.toNat ≤ 57 := by
  have between {low high : Char} (h : (decide (c.val ≥ low.val) && decide (c.val ≤ high.val)) = true) :
      low.toNat ≤ c.toNat ∧ c.toNat ≤ high.toNat := by
    obtain ⟨hlow, hhigh⟩ := Bool.and_eq_true_iff.1 h
    exact ⟨UInt32.le_iff_toNat_le.1 (of_decide_eq_true hlow), UInt32.le_iff_toNat_le.1 (of_decide_eq_true hhigh)⟩
  rcases Bool.or_eq_true_iff.1 h with halpha | hdigit
  · rcases Bool.or_eq_true_iff.1 halpha with hupper | hlower
    · obtain ⟨hlow, hhigh⟩ := of_decide_eq_true hupper
      exact .inl (.inl ⟨UInt32.le_iff_toNat_le.1 hlow, UInt32.le_iff_toNat_le.1 hhigh⟩)
    · exact .inl (.inr (between hlower))
  · exact .inr (between hdigit)

/-- Plain characters are printable, and none of them ends a segment or begins an escape. -/
theorem isPlain_spec {c : Char} (h : isPlain c = true) :
    (0x20 < c.toNat ∧ c.toNat < 0x7F) ∧ c ∉ ['%', '/', '?', '#'] := by
  constructor
  · rcases Bool.or_eq_true_iff.1 h with halnum | hmark
    · have hcode := code_of_isAlphanum halnum
      omega
    · have hmarks : ("-._~!$&'()*+,;=:@".toList.all fun x => 0x20 < x.toNat && x.toNat < 0x7F) = true := by decide
      simpa using List.all_eq_true.1 hmarks c (List.contains_iff_mem.1 hmark)
  · have hrest : (['%', '/', '?', '#'].all fun x => !isPlain x) = true := by decide
    intro hc
    have hnot := List.all_eq_true.1 hrest c hc
    rw [h] at hnot
    cases hnot

theorem utf8EncodeChar_ascii {c : Char} (h : c.toNat < 128) : String.utf8EncodeChar c = [UInt8.ofNat c.toNat] := by
  have hle : c.val.toNat ≤ 127 := Nat.le_of_lt_succ h
  simp only [String.utf8EncodeChar, if_pos hle]
  rfl

theorem percentDecodeBytes_cons {b : UInt8} (h : b ≠ 0x25) (r : List UInt8) :
    percentDecodeBytes (b :: r) = b :: percentDecodeBytes r := by
  rw [percentDecodeBytes]
  rintro a c t rfl
  exact absurd rfl h

/-- The two digits of an escaped byte give the byte. -/
theorem hexDigit_spec : ∀ n < 16, ∀ upper, (hexDigit upper n).toNat < 128 ∧ isPlain (hexDigit upper n) = true ∧
    hexValue? (UInt8.ofNat (hexDigit upper n).toNat) = some (UInt8.ofNat n) := by decide

theorem byte_ne_percent {c : Char} (h : c.toNat < 128) (hc : c ≠ '%') : UInt8.ofNat c.toNat ≠ 0x25 := by
  intro he
  have hcode := congrArg UInt8.toNat he
  rw [UInt8.toNat_ofNat'] at hcode
  have hpercent : c.toNat = 37 := by
    change c.toNat % 256 = 37 at hcode
    omega
  exact hc (Char.toNat_inj.1 hpercent)

theorem percentDecodeBytes_escaped (first second : Bool) (b : UInt8) (r : List UInt8) :
    percentDecodeBytes (0x25 :: UInt8.ofNat (hexDigit first (b.toNat / 16)).toNat ::
      UInt8.ofNat (hexDigit second (b.toNat % 16)).toNat :: r) = b :: percentDecodeBytes r := by
  have hb : b.toNat < 256 := b.toNat_lt
  obtain ⟨-, -, hfirst⟩ := hexDigit_spec (b.toNat / 16) (by omega) first
  obtain ⟨-, -, hsecond⟩ := hexDigit_spec (b.toNat % 16) (by omega) second
  rw [percentDecodeBytes, hfirst, hsecond]
  have hbyte : 16 * UInt8.ofNat (b.toNat / 16) + UInt8.ofNat (b.toNat % 16) = b := by
    apply UInt8.toNat_inj.1
    rw [UInt8.toNat_add, UInt8.toNat_mul, UInt8.toNat_ofNat', UInt8.toNat_ofNat']
    change (16 * (b.toNat / 16 % 256) % 256 + b.toNat % 16 % 256) % 256 = b.toNat
    omega
  simp only [hbyte]

/-- Characters that are no percent signs decode to themselves. -/
theorem percentDecodeBytes_ascii_append {p : List Char} (h : ∀ c ∈ p, c.toNat < 128 ∧ c ≠ '%') (r : List UInt8) :
    percentDecodeBytes (p.flatMap String.utf8EncodeChar ++ r) =
      p.flatMap String.utf8EncodeChar ++ percentDecodeBytes r := by
  induction p with
  | nil => rfl
  | cons c rest ih =>
    obtain ⟨⟨hascii, hc⟩, hrest⟩ := List.forall_mem_cons.1 h
    rw [List.flatMap_cons, utf8EncodeChar_ascii hascii, List.append_assoc, List.singleton_append,
      percentDecodeBytes_cons (byte_ne_percent hascii hc), ih hrest, List.append_assoc, List.singleton_append]

theorem percentDecodeBytes_of_encodes {s : List Char} {bytes : List UInt8} (h : Encodes s bytes) :
    percentDecodeBytes (s.flatMap String.utf8EncodeChar) = bytes := by
  induction h with
  | nil =>
    rw [List.flatMap_nil, percentDecodeBytes]
  | @plain c s bytes hc _ ih =>
    obtain ⟨⟨-, hascii⟩, hmarks⟩ := isPlain_spec hc
    have hpercent : c ≠ '%' := fun he => hmarks (by simp [he])
    rw [List.flatMap_cons, utf8EncodeChar_ascii (by omega), List.singleton_append,
      percentDecodeBytes_cons (byte_ne_percent (by omega) hpercent), ih]
  | @escaped s bytes first second b _ ih =>
    have hb : b.toNat < 256 := b.toNat_lt
    obtain ⟨hfirst, -⟩ := hexDigit_spec (b.toNat / 16) (by omega) first
    obtain ⟨hsecond, -⟩ := hexDigit_spec (b.toNat % 16) (by omega) second
    have hpercent : String.utf8EncodeChar '%' = [0x25] := by decide
    rw [List.flatMap_cons, List.flatMap_cons, List.flatMap_cons, hpercent, utf8EncodeChar_ascii hfirst,
      utf8EncodeChar_ascii hsecond]
    simp only [List.cons_append, List.nil_append]
    rw [percentDecodeBytes_escaped, ih]

/-- A path whose last segment encodes a text decodes to the path with the text behind it. -/
theorem percentDecode_of_encodes {p s : List Char} {name : String} (hp : ∀ c ∈ p, c.toNat < 128 ∧ c ≠ '%')
    (h : Encodes s (utf8Bytes name)) : (percentDecode (String.ofList (p ++ s))).toList = p ++ name.toList := by
  have hbytes : utf8Bytes (String.ofList (p ++ s)) =
      p.flatMap String.utf8EncodeChar ++ s.flatMap String.utf8EncodeChar := by
    rw [utf8Bytes, String.toList_ofList, List.flatMap_append]
  have hwhole : p.flatMap String.utf8EncodeChar ++ utf8Bytes name = utf8Bytes (String.ofList (p ++ name.toList)) := by
    rw [utf8Bytes, utf8Bytes, String.toList_ofList, List.flatMap_append]
  rw [percentDecode, hbytes, percentDecodeBytes_ascii_append hp, percentDecodeBytes_of_encodes h, hwhole,
    ofUtf8Lossy_utf8Bytes, String.toList_ofList]

/-- Every text has a segment that encodes it. -/
theorem exists_encodes (bytes : List UInt8) : ∃ s, Encodes s bytes := by
  induction bytes with
  | nil => exact ⟨[], .nil⟩
  | cons b rest ih =>
    obtain ⟨s, hs⟩ := ih
    exact ⟨_, .escaped true true b hs⟩

theorem Encodes.chars {s : List Char} {bytes : List UInt8} (h : Encodes s bytes) :
    ∀ c ∈ s, c = '%' ∨ isPlain c = true := by
  induction h with
  | nil => simp
  | plain hc _ ih => exact List.forall_mem_cons.2 ⟨.inr hc, ih⟩
  | @escaped s bytes first second b _ ih =>
    have hb : b.toNat < 256 := b.toNat_lt
    obtain ⟨-, hfirst, -⟩ := hexDigit_spec (b.toNat / 16) (by omega) first
    obtain ⟨-, hsecond, -⟩ := hexDigit_spec (b.toNat % 16) (by omega) second
    exact List.forall_mem_cons.2 ⟨.inl rfl, List.forall_mem_cons.2 ⟨.inr hfirst,
      List.forall_mem_cons.2 ⟨.inr hsecond, ih⟩⟩⟩

end FeedLedger.Text
