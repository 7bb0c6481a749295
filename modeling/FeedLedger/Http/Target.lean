import FeedLedger.Decimal.Grouped
import FeedLedger.Http.Host
import FeedLedger.Text.Percent
import FeedLedger.Text.Quoted

namespace FeedLedger.Http

open Text

/-- What is wrong with a target. -/
inductive TargetFault
  | tooLong
  | unprintable (c : Char) (position : Nat)
  | badHost (given : String)
  /-- A host in brackets that is no address. -/
  | badAddress (given : String)
  | badPort (given : String)
  /-- A path that begins with two slashes, with no host in front of it. -/
  | doubleSlash
  /-- A path that begins with a colon, with neither a scheme nor a host in front of it. -/
  | leadingColon
  /-- A part that is too long behind the address of the service. -/
  | longPart (name : String)
  /-- A host that is to be reached under a scheme other than that of the service. -/
  | unknownScheme (name : String)
  /-- What stands behind the first colon of a host and its port, if the host has colons itself. -/
  | colonInHost (rest : String)
  deriving DecidableEq

namespace TargetFault

def message : TargetFault → String
  | tooLong => "URL too long"
  | unprintable c position =>
    "Invalid non-printable ASCII character in URL, " ++ quote (String.singleton c) ++ " at position " ++
      ofNat position ++ "."
  | badHost given => "Invalid IPv4 address: " ++ quote given
  | badAddress given => "Invalid IPv6 address: " ++ quote given
  | badPort given => "Invalid port: " ++ quote given
  | doubleSlash => "Relative URLs cannot have a path starting with '//'"
  | leadingColon => "Relative URLs cannot have a path starting with ':'"
  | longPart name => "URL component " ++ quote name ++ " too long"
  | unknownScheme name => quote name
  | colonInHost rest => "invalid literal for int() with base 10: " ++ quoteStart rest

end TargetFault

/-- A target in its parts. -/
structure Target where
  scheme : List Char
  user : List Char
  host : List Char
  port : List Char
  path : List Char
  query : List Char

namespace Target

/-- The greatest number of characters of a target. -/
def maxLength : Nat := 65536

def isControl (c : Char) : Bool := c.toNat < 0x20 || c.toNat = 0x7F

def isSchemeChar (c : Char) : Bool := c.isAlphanum || c = '+' || c = '.' || c = '-'

def isPathChar (c : Char) : Bool := c ≠ '?' && c ≠ '#'

/-- Splits a scheme off, which ends at a colon and may be empty. -/
def splitScheme (s : List Char) : List Char × List Char :=
  let name := s.takeWhile isSchemeChar
  match s.dropWhile isSchemeChar with
  | ':' :: r => if name.head?.all Char.isAlpha then (name, r) else ([], s)
  | _ => ([], s)

/-- Splits off what stands between two slashes and the path. -/
def splitAuthority : List Char → List Char × List Char
  | '/' :: '/' :: r => (r.takeWhile fun c => isPathChar c && c ≠ '/', r.dropWhile fun c => isPathChar c && c ≠ '/')
  | r => ([], r)

/-- The user in front of the last at sign, and what follows it. -/
def splitUser (authority : List Char) : List Char × List Char :=
  if authority.contains '@' then
    (((authority.reverse.dropWhile (· ≠ '@')).drop 1).reverse, (authority.reverse.takeWhile (· ≠ '@')).reverse)
  else ([], authority)

/-- A host, which may stand between brackets, and the port behind it. -/
def splitHost (s : List Char) : List Char × List Char :=
  let (host, rest) :=
    if s.head? = some '[' ∧ s.contains ']' then
      ((s.reverse.dropWhile (· ≠ ']')).reverse, (s.reverse.takeWhile (· ≠ ']')).reverse)
    else (s.takeWhile (· ≠ ':'), s.dropWhile (· ≠ ':'))
  (host, if rest.head? = some ':' then rest.drop 1 else rest)

/-- The query that a text begins with, up to the fragment. -/
def splitQuery : List Char → List Char
  | '?' :: r => r.takeWhile (· ≠ '#')
  | _ => []

def ofChars (s : List Char) : Target :=
  let (scheme, s) := splitScheme s
  let (authority, s) := splitAuthority s
  let (user, hostAndPort) := splitUser authority
  let (host, port) := splitHost hostAndPort
  ⟨scheme.map Char.toLower, user, host, port, s.takeWhile isPathChar, splitQuery (s.dropWhile isPathChar)⟩

/-- The fault of a host; of hosts, only numbered ones are looked at. -/
def hostFault? (host : List Char) : Option TargetFault :=
  if Host.looksNumbered host ∧ Host.isByteAddress host = false then some (.badHost (String.ofList host))
  else if Host.isBracketed host ∧ Host.isHextetAddress (Host.bare host) = false then
    some (.badAddress (String.ofList host))
  else none

/-- The number of a port; a port without characters is none. -/
def portNumber? (port : List Char) : Except TargetFault (Option Int) :=
  let given := String.ofList port
  if port = [] then .ok none
  else
    match (Decimal.ungrouped? given).bind Decimal.plainInteger? with
    | some n => .ok (some n)
    | none => .error (.badPort given)

def portFault? (port : List Char) : Option TargetFault :=
  match portNumber? port with
  | .ok _ => none
  | .error f => some f

/-- Whether a target names the host by itself. -/
def isAbsolute (t : Target) : Bool := t.scheme ≠ [] && t.host ≠ []

def schemes : List (List Char) := ["http".toList, "https".toList]

/-- Whether a host is named, or something that belongs to one. -/
def hasAuthority (t : Target) : Bool := t.user ≠ [] || t.host ≠ [] || t.port ≠ []

/-- The fault of a path with nothing in front of it. -/
def pathFault? (t : Target) : Option TargetFault :=
  if t.scheme ≠ [] ∨ t.hasAuthority then none
  else
    match t.path with
    | '/' :: '/' :: _ => some .doubleSlash
    | ':' :: _ => some .leadingColon
    | _ => none

/-- The fault of a scheme, which counts where there is a host. -/
def schemeFault? (t : Target) : Option TargetFault :=
  if t.isAbsolute = false ∨ schemes.contains t.scheme then none
  else some (.unknownScheme (String.ofList t.scheme))

/-- The number of characters of a text in which all but the safe printable ones are percent-encoded. -/
def encodedLength (isUnsafe : Char → Bool) (s : List Char) : Nat :=
  s.foldl (fun n c => n + if 0x20 ≤ c.toNat ∧ c.toNat < 0x7F ∧ isUnsafe c = false then 1 else 3 * c.utf8Size) 0

/-- Printable characters that are percent-encoded in a path. -/
def isUnsafeInPath (c : Char) : Bool := [' ', '"', '#', '<', '>', '?', '`', '\x7b', '\x7d'].contains c

/-- Printable characters that are percent-encoded in a query. -/
def isUnsafeInQuery (c : Char) : Bool := [' ', '"', '#', '<', '>'].contains c

/-- The fault of a target's length behind the address of the service, from whose root it starts. -/
def lengthFault? (t : Target) : Option TargetFault :=
  let path := t.path.dropWhile (· = '/')
  if t.isAbsolute then none
  else if maxLength < 1 + encodedLength isUnsafeInPath path then some (.longPart "path")
  else if maxLength < encodedLength isUnsafeInQuery t.query then some (.longPart "query")
  else none

/-- The ports that belong to the schemes. -/
def defaultPort? (scheme : List Char) : Option Int :=
  if scheme = "http".toList then some 80 else if scheme = "https".toList then some 443 else none

/-- The fault of a host that has colons itself: what stands behind the first one is taken for the port. -/
def colonFault? (t : Target) : Option TargetFault :=
  let port := match portNumber? t.port with
    | .ok (some n) => if defaultPort? t.scheme = some n then "" else ":" ++ ofInt n
    | _ => ""
  if t.isAbsolute ∧ Host.isBracketed t.host then
    some (.colonInHost (String.ofList ((t.host.dropWhile (· ≠ ':')).drop 1) ++ port))
  else none

def fault? (t : Target) : Option TargetFault :=
  [hostFault? t.host, portFault? t.port, t.pathFault?, t.lengthFault?, t.schemeFault?, t.colonFault?].findSome? id

/-- The path from the root on, without dot segments. Behind a scheme and a host it stands as it is, otherwise one
slash is set in front of it for all that it begins with. -/
def rooted (t : Target) : List Char :=
  let path := if t.scheme ≠ [] ∨ t.hasAuthority then withoutDots t.path else t.path
  if t.isAbsolute ∧ path ≠ [] then path
  else withoutDots ('/' :: path.dropWhile (· = '/'))

end Target

def decodedPath (target : String) : Except TargetFault (List Char) :=
  let s := target.toList
  let before := s.takeWhile (!Target.isControl ·)
  if Target.maxLength < s.length then .error .tooLong
  else
    match s.drop before.length with
    | c :: _ => .error (.unprintable c before.length)
    | [] =>
      let t := Target.ofChars s
      match t.fault? with
      | some f => .error f
      | none => .ok (percentDecode (String.ofList t.rooted)).toList

end FeedLedger.Http
