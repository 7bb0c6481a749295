import FeedLedger.Text.DecimalDigit
import FeedLedger.Text.PathSegments

namespace FeedLedger.Http.Host

open Text

/-- Whether four numbers with points between them are the numbers of bytes, written without leading zeros. -/
def isByteAddress (s : List Char) : Bool :=
  let parts := splitAt '.' s
  parts.length == 4 && parts.all fun p =>
    p ≠ [] && p.all isDigit && p.length ≤ 3 && natOfDigits p ≤ 255 && (p.length = 1 || p.head? ≠ some '0')

/-- The places reached in a text of four numbers with one character between each two of them, from all places reached
before a character: an odd place lies in a number, an even one behind what separates two. -/
def advance (places : List Nat) (c : Char) : List Nat :=
  (List.range 8).filter fun place =>
    if place % 2 = 1 then isDigit c && (places.contains (place - 1) || places.contains place)
    else place ≠ 0 && places.contains (place - 1)

/-- Whether a text looks like four numbers; any character may separate them, digits too. -/
def looksNumbered (s : List Char) : Bool := (s.foldl advance [0]).contains 7

def isHexDigit (c : Char) : Bool := isDigit c || ('a' ≤ c && c ≤ 'f') || ('A' ≤ c && c ≤ 'F')

/-- Whether a part of an address is a number of two bytes. -/
def isHextet (s : List Char) : Bool := s ≠ [] && s.length ≤ 4 && s.all isHexDigit

/-- The parts between colons, a byte address at the end counted as two of them; none if it is not one. -/
def hextets? (s : List Char) : Option (List (List Char)) :=
  let parts := splitAt ':' s
  let last := (parts.getLast?).getD []
  if parts.length < 3 then none
  else if last.contains '.' then if isByteAddress last then some (parts.dropLast ++ [['0'], ['0']]) else none
  else some parts

/-- The empty parts inside, by position. -/
def gaps (parts : List (List Char)) : List Nat :=
  (List.range (parts.length - 1)).filter fun i => 0 < i && parts[i]? = some []

/-- Whether parts stand for sixteen bytes. One gap may stand for a run of zeros; at either end of the address it takes
an empty part more. -/
def fillsAddress (parts : List (List Char)) : Bool :=
  match gaps parts with
  | [] => parts.length == 8 && parts.all isHextet
  | [i] =>
    let before := parts.take i
    let behind := parts.drop (i + 1)
    let before := if before = [[]] then [] else before
    let behind := if behind = [[]] then [] else behind
    parts.length ≤ 9 && before.length + behind.length < 8 && before.all isHextet && behind.all isHextet
  | _ => false

/-- Whether a text between brackets is an address. Behind a percent sign it may name a zone. -/
def isHextetAddress (s : List Char) : Bool :=
  let address := s.takeWhile (· ≠ '%')
  let zone := s.drop address.length
  (zone = [] || (zone.length ≠ 1 && !(zone.drop 1).contains '%')) && ((hextets? address).map fillsAddress).getD false

/-- Whether a host stands in brackets. -/
def isBracketed (s : List Char) : Bool := s.head? = some '[' && 2 ≤ s.length && s.getLast? = some ']'

def bare (s : List Char) : List Char := (s.drop 1).dropLast

end FeedLedger.Http.Host
