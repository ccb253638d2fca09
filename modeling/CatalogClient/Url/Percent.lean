import CatalogClient.Text.Utf8
import CatalogClient.Text.Blank
/-!
Percent-encoding: a byte outside the kept set is a percent sign and two upper-case hexadecimal
digits. Form encoding keeps its own set, writes a space as a plus sign, and joins pairs.
-/

namespace CatalogClient.Url

def hexDigit (n : Nat) : Char := (Nat.digitChar n).toUpper

def hexValue? (c : Char) : Option Nat :=
  if '0' ≤ c ∧ c ≤ '9' then some (c.toNat - 48)
  else if 'a' ≤ c ∧ c ≤ 'f' then some (c.toNat - 87)
  else if 'A' ≤ c ∧ c ≤ 'F' then some (c.toNat - 55)
  else none

def escapeByte (b : UInt8) : List Char :=
  ['%', hexDigit (b.toNat / 16), hexDigit (b.toNat % 16)]

def escapeChar (kept : Char → Bool) (c : Char) : List Char :=
  if kept c then [c] else (String.utf8EncodeChar c).flatMap escapeByte

def escape (kept : Char → Bool) (cs : List Char) : List Char :=
  cs.flatMap (escapeChar kept)

def isAsciiAlphanumeric (c : Char) : Bool :=
  ('0' ≤ c && c ≤ '9') || ('a' ≤ c && c ≤ 'z') || ('A' ≤ c && c ≤ 'Z')

/-- The characters that stand for themselves everywhere in a URL. -/
def isUnreserved (c : Char) : Bool :=
  isAsciiAlphanumeric c || c = '-' || c = '_' || c = '.' || c = '~'

/-- Everything printable of ASCII, the space included. -/
def notControl (c : Char) : Bool := ' ' ≤ c && c ≤ '~'

def keptInFragment (c : Char) : Bool :=
  notControl c && c != ' ' && c != '"' && c != '<' && c != '>' && c.toNat != 0x60

def keptInPath (c : Char) : Bool :=
  keptInFragment c && c != '#' && c != '?' && c != '\x7b' && c != '\x7d'

def keptInUserinfo (c : Char) : Bool :=
  keptInPath c && c != '/' && c != ':' && c != ';' && c != '=' && c != '@' && c != '[' &&
    c != '\\' && c != ']' && c != '^' && c != '|'

def keptInQuery (special : Bool) (c : Char) : Bool :=
  notControl c && c != ' ' && c != '"' && c != '#' && c != '<' && c != '>' &&
    !(special && c.toNat == 0x27)

/-- A segment of a path: every character that is not unreserved is escaped. -/
def escapeSegment (s : String) : String :=
  String.ofList (escape isUnreserved s.toList)

/-- The bytes of a text in which an escape stands for its byte; a percent sign that begins no
escape stands for itself. -/
def unescape : List Char → List UInt8
  | [] => []
  | '%' :: a :: b :: cs =>
    match hexValue? a, hexValue? b with
    | some h, some l => UInt8.ofNat (h * 16 + l) :: unescape cs
    | _, _ => 0x25 :: unescape (a :: b :: cs)
  | c :: cs => String.utf8EncodeChar c ++ unescape cs

namespace Form

def kept (c : Char) : Bool :=
  isAsciiAlphanumeric c || c = '*' || c = '-' || c = '.' || c = '_'

def encodeChar (c : Char) : List Char :=
  if c = ' ' then ['+'] else escapeChar kept c

def encode (s : String) : List Char := s.toList.flatMap encodeChar

def decode (cs : List Char) : String :=
  Text.Utf8.decodeLossy (unescape (cs.map fun c => if c = '+' then ' ' else c))

def encodePair : String × String → List Char
  | (k, v) => encode k ++ '=' :: encode v

def encodePairs (ps : List (String × String)) : List Char :=
  List.intercalate ['&'] (ps.map encodePair)

def decodePair (cs : List Char) : String × String :=
  match Text.cut? '=' cs with
  | some (k, v) => (decode k, decode v)
  | none => (decode cs, "")

/-- The pairs of a query; empty pieces between ampersands are no pairs. -/
def decodePairs (cs : List Char) : List (String × String) :=
  ((Text.splitList '&' cs).filter (· ≠ [])).map decodePair

end Form

end CatalogClient.Url
