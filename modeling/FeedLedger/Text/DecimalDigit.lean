namespace FeedLedger.Text

/-- The zeros of all scripts, in ascending order. Behind each one stand the other nine digits of its script. -/
def digitZeros : List Nat := [
  0x0030, 0x0660, 0x06F0, 0x07C0, 0x0966, 0x09E6, 0x0A66, 0x0AE6,
  0x0B66, 0x0BE6, 0x0C66, 0x0CE6, 0x0D66, 0x0DE6, 0x0E50, 0x0ED0,
  0x0F20, 0x1040, 0x1090, 0x17E0, 0x1810, 0x1946, 0x19D0, 0x1A80,
  0x1A90, 0x1B50, 0x1BB0, 0x1C40, 0x1C50, 0xA620, 0xA8D0, 0xA900,
  0xA9D0, 0xA9F0, 0xAA50, 0xABF0, 0xFF10, 0x104A0, 0x10D30, 0x11066,
  0x110F0, 0x11136, 0x111D0, 0x112F0, 0x11450, 0x114D0, 0x11650, 0x116C0,
  0x11730, 0x118E0, 0x11950, 0x11C50, 0x11D50, 0x11DA0, 0x16A60,
  0x16AC0, 0x16B50, 0x1D7CE, 0x1D7D8, 0x1D7E2, 0x1D7EC, 0x1D7F6, 0x1E140,
  0x1E2F0, 0x1E950, 0x1FBF0]

/-- The number a digit stands for, whatever its script. -/
def digitValue? (c : Char) : Option Nat :=
  digitZeros.findSome? fun first =>
    if first ≤ c.toNat ∧ c.toNat ≤ first + 9 then some (c.toNat - first) else none

/-- A digit of any script as an ASCII digit; every other character as it is. -/
def asciiDigit (c : Char) : Char :=
  match digitValue? c with
  | some d => Nat.digitChar d
  | none => c

def isDigit (c : Char) : Bool := 0x30 ≤ c.toNat && c.toNat ≤ 0x39

/-- The number written by a row of ASCII digits. -/
def natOfDigits (s : List Char) : Nat := s.foldl (fun n c => 10 * n + (c.toNat - 0x30)) 0

/-- The decimal digits of a number, without leading zeros. -/
def digitsOfNat (n : Nat) : List Char := Nat.toDigits 10 n

/-- The decimal digits of an integer, behind a minus if it is negative. -/
def digitsOfInt : Int → List Char
  | .ofNat n => digitsOfNat n
  | .negSucc n => '-' :: digitsOfNat (n + 1)

def ofNat (n : Nat) : String := String.ofList (digitsOfNat n)

def ofInt (n : Int) : String := String.ofList (digitsOfInt n)

/-- The digits of a number, filled up with zeros on the left. -/
def padded (width n : Nat) : List Char :=
  let digits := digitsOfNat n
  List.replicate (width - digits.length) '0' ++ digits

theorem digitValue?_lt {c : Char} {d : Nat} (h : digitValue? c = some d) : d < 10 := by
  obtain ⟨first, _, hz⟩ := List.exists_of_findSome?_eq_some h
  split at hz
  · cases hz; omega
  · cases hz

theorem natOfDigits_append (s t : List Char) :
    natOfDigits (s ++ t) = t.foldl (fun n c => 10 * n + (c.toNat - 0x30)) (natOfDigits s) := by
  simp [natOfDigits, List.foldl_append]

end FeedLedger.Text
