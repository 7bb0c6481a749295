namespace FeedLedger.Text

def utf8Bytes (s : String) : List UInt8 := s.toList.flatMap String.utf8EncodeChar

/-- The bytes that may follow a first byte: how many, and the bounds of the second one. -/
def followers? (b : UInt8) : Option (Nat × UInt8 × UInt8) :=
  if 0xC2 ≤ b ∧ b ≤ 0xDF then some (1, 0x80, 0xBF)
  else if b = 0xE0 then some (2, 0xA0, 0xBF)
  else if b = 0xED then some (2, 0x80, 0x9F)
  else if 0xE1 ≤ b ∧ b ≤ 0xEF then some (2, 0x80, 0xBF)
  else if b = 0xF0 then some (3, 0x90, 0xBF)
  else if 0xF1 ≤ b ∧ b ≤ 0xF3 then some (3, 0x80, 0xBF)
  else if b = 0xF4 then some (3, 0x80, 0x8F)
  else none

/-- The length of the longest start of `s` that can be continued to a character, up to `n` bytes. -/
def continued (n : Nat) (low high : UInt8) : List UInt8 → Nat
  | [] => 0
  | b :: r =>
    match n with
    | 0 => 0
    | n + 1 => if low ≤ b && b ≤ high then continued n 0x80 0xBF r + 1 else 0

/-- The first character of a byte row and the number of bytes it takes; no character stands for an
ill-formed start, which takes as many bytes as could have begun a character. -/
def firstChar (b : UInt8) (r : List UInt8) : Option Char × Nat :=
  if b < 0x80 then (some (Char.ofNat b.toNat), 1)
  else
    match followers? b with
    | none => (none, 1)
    | some (n, low, high) =>
      let k := continued n low high r
      if k = n then
        let lead := b.toNat % Nat.pow 2 (6 - n)
        (some (Char.ofNat ((r.take n).foldl (fun v c => 64 * v + c.toNat % 64) lead)), n + 1)
      else (none, k + 1)

/-- The characters of a byte row, with none for each ill-formed part. -/
def readUtf8 : List UInt8 → List (Option Char)
  | [] => []
  | b :: r =>
    let first := firstChar b r
    first.1 :: readUtf8 (r.drop (first.2 - 1))
  termination_by s => s.length
  decreasing_by simp only [List.length_drop, List.length_cons]; omega

/-- The text of a byte row, if it is well-formed. -/
def ofUtf8? (bytes : List UInt8) : Option String :=
  ((readUtf8 bytes).mapM id).map String.ofList

/-- The text of a byte row, with U+FFFD for each ill-formed part. -/
def ofUtf8Lossy (bytes : List UInt8) : String :=
  String.ofList ((readUtf8 bytes).map (·.getD (Char.ofNat 0xFFFD)))

end FeedLedger.Text
