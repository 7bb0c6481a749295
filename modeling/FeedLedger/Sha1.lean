import FeedLedger.Text.Quoted
import FeedLedger.Text.Utf8

namespace FeedLedger.Sha1

/-- The five words of the running digest. -/
structure State where
  a : UInt32
  b : UInt32
  c : UInt32
  d : UInt32
  e : UInt32

def initial : State := ⟨0x67452301, 0xEFCDAB89, 0x98BADCFE, 0x10325476, 0xC3D2E1F0⟩

def rotate (n x : UInt32) : UInt32 := (x <<< n) ||| (x >>> (32 - n))

/-- The function and the constant of a round. -/
def mixing (round : Nat) (b c d : UInt32) : UInt32 × UInt32 :=
  if round < 20 then ((b &&& c) ||| (~~~b &&& d), 0x5A827999)
  else if round < 40 then (b ^^^ c ^^^ d, 0x6ED9EBA1)
  else if round < 60 then ((b &&& c) ||| (b &&& d) ||| (c &&& d), 0x8F1BBCDC)
  else (b ^^^ c ^^^ d, 0xCA62C1D6)

/-- One round for each word of the schedule. -/
def rounds (s : State) (round : Nat) : List UInt32 → State
  | [] => s
  | w :: r =>
    let (f, k) := mixing round s.b s.c s.d
    rounds ⟨rotate 5 s.a + f + s.e + k + w, s.a, rotate 30 s.b, s.c, s.d⟩ (round + 1) r

/-- Prolongs the schedule by `n` words; the newest word comes first. -/
def extend : Nat → List UInt32 → List UInt32
  | 0, ws => ws
  | n + 1, ws =>
    let w := ws.getD 2 0 ^^^ ws.getD 7 0 ^^^ ws.getD 13 0 ^^^ ws.getD 15 0
    extend n (rotate 1 w :: ws)

/-- Takes a block of sixteen words into the digest. -/
def absorb (s : State) (block : List UInt32) : State :=
  let t := rounds s 0 (extend 64 block.reverse).reverse
  ⟨s.a + t.a, s.b + t.b, s.c + t.c, s.d + t.d, s.e + t.e⟩

/-- Four bytes, the first one highest, as a word. -/
def words : List UInt8 → List UInt32
  | a :: b :: c :: d :: r =>
    ((a.toUInt32 <<< 24) ||| (b.toUInt32 <<< 16) ||| (c.toUInt32 <<< 8) ||| d.toUInt32) :: words r
  | _ => []

/-- Takes the words into the digest, sixteen at a time. -/
def absorbAll (s : State) : List UInt32 → List UInt32 → State
  | block, [] => if block.length = 16 then absorb s block.reverse else s
  | block, w :: r =>
    if block.length = 16 then absorbAll (absorb s block.reverse) [w] r else absorbAll s (w :: block) r

/-- The last `width` bytes of a number, the highest first. -/
def bigEndian : Nat → Nat → List UInt8
  | 0, _ => []
  | width + 1, n => bigEndian width (n / 256) ++ [UInt8.ofNat n]

/-- A byte row filled up to whole blocks: a one bit, zeros, and the length in bits. -/
def padded (bytes : List UInt8) : List UInt8 :=
  bytes ++ 0x80 :: List.replicate ((119 - bytes.length % 64) % 64) 0 ++ bigEndian 8 (8 * bytes.length)

def digest (bytes : List UInt8) : State := absorbAll initial [] (words (padded bytes))

/-- The digest as forty hexadecimal digits. -/
def hex (bytes : List UInt8) : String :=
  let s := digest bytes
  String.ofList ([s.a, s.b, s.c, s.d, s.e].flatMap fun w => Text.hexDigits 8 w.toNat)

end FeedLedger.Sha1
