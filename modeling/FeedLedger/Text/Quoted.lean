import FeedLedger.Text.Unprintable

namespace FeedLedger.Text

/-- The last `width` hexadecimal digits of a number. -/
def hexDigits (width n : Nat) : List Char :=
  match width with
  | 0 => []
  | w + 1 => hexDigits w (n / 16) ++ [Nat.digitChar (n % 16)]

/-- The shortest escape that has room for the code point. -/
def escapeCode (n : Nat) : List Char :=
  if n < 0x100 then '\\' :: 'x' :: hexDigits 2 n
  else if n < 0x10000 then '\\' :: 'u' :: hexDigits 4 n
  else '\\' :: 'U' :: hexDigits 8 n

/-- One character between the given marks. -/
def quoteChar (mark c : Char) : List Char :=
  if c = mark ∨ c = '\\' then ['\\', c]
  else if c = '\n' then ['\\', 'n']
  else if c = '\r' then ['\\', 'r']
  else if c = '\t' then ['\\', 't']
  else if isPrintable c then [c]
  else escapeCode c.toNat

/-- The mark that needs the fewer escapes; the apostrophe if in doubt. -/
def quoteMark (s : List Char) : Char :=
  if s.contains '\'' && !s.contains '"' then '"' else '\''

/-- Quoted text, as it stands in messages, with controls and unprintable characters escaped. -/
def quoted (s : List Char) : List Char :=
  let mark := quoteMark s
  mark :: s.flatMap (quoteChar mark) ++ [mark]

def quote (s : String) : String := String.ofList (quoted s.toList)

/-- The number of characters of a quoted form that are shown where a long text is cut off. -/
def quoteLimit : Nat := 200

/-- The first characters of the quoted form of a string. -/
def quoteStart (s : String) : String := String.ofList ((quoted s.toList).take quoteLimit)

end FeedLedger.Text
