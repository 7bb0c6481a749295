import FeedLedger.IngestKey
import FeedLedger.Registry
import Mathlib.Tactic.Common

namespace FeedLedger

namespace Text

theorem digitsOfNat_injective : Function.Injective digitsOfNat := by
  intro n m h
  have hback (k : Nat) : Nat.ofDigitChars 10 (digitsOfNat k) 0 = k := Nat.ofDigitChars_ten_toDigits
  rw [← hback n, ← hback m, h]

theorem notMem_digitsOfNat {c : Char} (hc : c.isDigit = false) (n : Nat) : c ∉ digitsOfNat n := by
  intro h
  have hdigit : c.isDigit = true := Nat.isDigit_of_mem_toDigits (by decide) (by decide) h
  rw [hc] at hdigit
  cases hdigit

theorem notMem_digitsOfInt {c : Char} (hc : c.isDigit = false) (hminus : c ≠ '-') (n : Int) : c ∉ digitsOfInt n := by
  cases n with
  | ofNat n => exact notMem_digitsOfNat hc n
  | negSucc n => exact List.not_mem_cons_of_ne_of_not_mem hminus (notMem_digitsOfNat hc (n + 1))

theorem colon_notMem_digitsOfInt (n : Int) : ':' ∉ digitsOfInt n :=
  notMem_digitsOfInt (by decide) (by decide) n

/-- The minus tells negative integers from others, since it is no digit. -/
theorem digitsOfInt_injective : Function.Injective digitsOfInt := by
  have apart (n m : Nat) : digitsOfNat n ≠ '-' :: digitsOfNat m := by
    intro h
    exact notMem_digitsOfNat (by decide) n (h ▸ List.mem_cons_self)
  intro n m h
  cases n with
  | ofNat n =>
    cases m with
    | ofNat m => exact congrArg Int.ofNat (digitsOfNat_injective h)
    | negSucc m => exact absurd h (apart n (m + 1))
  | negSucc n =>
    cases m with
    | ofNat m => exact absurd h.symm (apart m (n + 1))
    | negSucc m =>
      have hdigits : n + 1 = m + 1 := digitsOfNat_injective (List.cons.inj h).2
      rw [Nat.succ.inj hdigits]

theorem utf8_injective {s t : List Char}
    (h : s.flatMap String.utf8EncodeChar = t.flatMap String.utf8EncodeChar) : s = t := by
  apply String.ofList_injective
  rw [← String.toByteArray_inj, String.toByteArray_ofList, String.toByteArray_ofList]
  exact congrArg List.toByteArray h

/-- A text is cut in one way at a mark that the second part is free of. -/
theorem cut_injective {mark : Char} {s s' t t' : List Char} (ht : mark ∉ t) (ht' : mark ∉ t')
    (h : s ++ mark :: t = s' ++ mark :: t') : s = s' ∧ t = t' := by
  have free {a b : List Char} (hb : mark ∉ b) (c : List Char) : b ≠ a ++ mark :: c :=
    fun e => hb (e ▸ List.mem_append_right a List.mem_cons_self)
  rcases List.append_eq_append_iff.1 h with ⟨as, rfl, hrest⟩ | ⟨as, rfl, hrest⟩
  · cases as with
    | nil => simpa using hrest
    | cons c as =>
      rw [List.cons_append] at hrest
      exact absurd (List.cons.inj hrest).2 (free ht t')
  · cases as with
    | nil => simpa using hrest.symm
    | cons c as =>
      rw [List.cons_append] at hrest
      exact absurd (List.cons.inj hrest).2 (free ht' t)

end Text

namespace Registry

theorem colon_notMem_table {table : String} {s : Schema} (h : schema? table = some s) : ':' ∉ table.toList := by
  have hall : ∀ s ∈ schemas, ':' ∉ s.table.toList := by decide +kernel
  rw [← schema?_table h]
  exact hall s (mem_of_schema? h)

end Registry

namespace IngestKey

open Text

theorem written_int (n : Int) : (Value.int n).written = digitsOfInt n := by
  change (Value.int n).literal = digitsOfInt n
  unfold Value.literal
  rfl

theorem toList_batchName (stream : String) (offset : Int) :
    (batchName (.text stream) offset).toList = stream.toList ++ ':' :: digitsOfInt offset := by
  simp only [batchName]
  rw [String.toList_ofList]
  rfl

def bytes (batch table : String) (ordinal : Nat) : List UInt8 :=
  (origin batch table (.int ordinal)).flatMap String.utf8EncodeChar

theorem key_eq (batch table : String) (ordinal : Nat) :
    key batch table (.int ordinal) = Sha1.hex (bytes batch table ordinal) := rfl

theorem origin_eq (stream table : String) (offset ordinal : Int) :
    origin (batchName (.text stream) offset) table (.int ordinal) =
      ((stream.toList ++ ':' :: digitsOfInt offset) ++ ':' :: table.toList) ++ ':' :: digitsOfInt ordinal := by
  simp only [origin]
  rw [toList_batchName, written_int, List.append_assoc _ (':' :: table.toList)]

/-- The stream may hold colons and digits, but the parts behind it are free of colons. -/
theorem origin_injective {stream stream' table table' : String} {offset offset' ordinal ordinal' : Int}
    (ht : ':' ∉ table.toList) (ht' : ':' ∉ table'.toList)
    (h : origin (batchName (.text stream) offset) table (.int ordinal) =
      origin (batchName (.text stream') offset') table' (.int ordinal')) :
    stream = stream' ∧ offset = offset' ∧ table = table' ∧ ordinal = ordinal' := by
  rw [origin_eq, origin_eq] at h
  -- read from the end: each cut leaves a shorter text with one part less
  obtain ⟨h, hordinal⟩ := cut_injective (colon_notMem_digitsOfInt _) (colon_notMem_digitsOfInt _) h
  obtain ⟨h, htable⟩ := cut_injective ht ht' h
  obtain ⟨hstream, hoffset⟩ := cut_injective (colon_notMem_digitsOfInt _) (colon_notMem_digitsOfInt _) h
  exact ⟨String.toList_inj.1 hstream, digitsOfInt_injective hoffset, String.toList_inj.1 htable,
    digitsOfInt_injective hordinal⟩

theorem bytes_injective {stream stream' table table' : String} {offset offset' ordinal ordinal' : Nat}
    (ht : ':' ∉ table.toList) (ht' : ':' ∉ table'.toList)
    (h : bytes (batchName (.text stream) offset) table ordinal =
      bytes (batchName (.text stream') offset') table' ordinal') :
    stream = stream' ∧ offset = offset' ∧ table = table' ∧ ordinal = ordinal' := by
  obtain ⟨hstream, hoffset, htable, hordinal⟩ := origin_injective ht ht' (utf8_injective h)
  exact ⟨hstream, Int.natCast_inj.1 hoffset, htable, Int.natCast_inj.1 hordinal⟩

/-- Of rows whose tables have no colon in their names, and no built-in table has one, the same text is hashed only if
stream, offset, table and ordinal are the same. -/
theorem hashed_text_tells_its_origin :
    (∀ table s, Registry.schema? table = some s → ':' ∉ s.table.toList) ∧
    ∀ (stream stream' table table' : String) (offset offset' ordinal ordinal' : Int),
      ':' ∉ table.toList → ':' ∉ table'.toList →
      (origin (batchName (.text stream) offset) table (.int ordinal) =
          origin (batchName (.text stream') offset') table' (.int ordinal') ↔
        stream = stream' ∧ offset = offset' ∧ table = table' ∧ ordinal = ordinal') := by
  refine ⟨?builtin, ?apart⟩
  case builtin =>
    intro table s hs
    rw [Registry.schema?_table hs]
    exact Registry.colon_notMem_table hs
  case apart =>
    intro stream stream' table table' offset offset' ordinal ordinal' ht ht'
    constructor
    · exact origin_injective ht ht'
    · rintro ⟨rfl, rfl, rfl, rfl⟩
      rfl

/-- The same digits with a colon in another place. -/
theorem hashed_text_tells_its_origin_of_a_stream_with_colons :
    let table := Registry.linearAllLiquidation.table
    ':' ∉ table.toList ∧
      origin (batchName (.text "btc:1") 23) table (.int 0) ≠ origin (batchName (.text "btc:12") 3) table (.int 0) := by
  intro table
  have ht : ':' ∉ table.toList := hashed_text_tells_its_origin.1 table Registry.linearAllLiquidation rfl
  refine ⟨ht, fun h => ?_⟩
  have hsame := (hashed_text_tells_its_origin.2 "btc:1" "btc:12" table table 23 3 0 0 ht ht).1 h
  exact absurd hsame.2.1 (by decide)

-- A colon in a table's name is taken for the mark between the parts.
example : origin (batchName (.text "btc") 1) "2:trades" (.int 0) =
    origin (batchName (.text "btc:1") 2) "trades" (.int 0) := by decide

end IngestKey

end FeedLedger
