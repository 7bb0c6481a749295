import FeedLedger.Text.Utf8

namespace FeedLedger.Text

def hexValue? (c : UInt8) : Option UInt8 :=
  if 0x30 ≤ c ∧ c ≤ 0x39 then some (c - 0x30)
  else if 0x41 ≤ c ∧ c ≤ 0x46 then some (c - 0x37)
  else if 0x61 ≤ c ∧ c ≤ 0x66 then some (c - 0x57)
  else none

/-- Replaces each percent sign with two hexadecimal digits by the byte it stands for. -/
def percentDecodeBytes : List UInt8 → List UInt8
  | 0x25 :: a :: b :: r =>
    match hexValue? a, hexValue? b with
    | some x, some y => (16 * x + y) :: percentDecodeBytes r
    | _, _ => 0x25 :: percentDecodeBytes (a :: b :: r)
  | a :: r => a :: percentDecodeBytes r
  | [] => []

def percentDecode (s : String) : String := ofUtf8Lossy (percentDecodeBytes (utf8Bytes s))

end FeedLedger.Text
