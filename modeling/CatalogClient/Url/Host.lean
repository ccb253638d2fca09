import CatalogClient.Url.Basic
import CatalogClient.Url.Punycode
/-!
Hosts of URLs: numeric addresses of both families, and domain names in ASCII form.
-/

namespace CatalogClient

inductive UrlFault
  | relativeWithoutBase
  | emptyHost
  | invalidPort
  | invalidIpv4
  | invalidIpv6
  | invalidDomainCharacter
  | invalidInternationalName
  deriving DecidableEq, Repr

def UrlFault.message : UrlFault → String
  | .relativeWithoutBase => "relative URL without a base"
  | .emptyHost => "empty host"
  | .invalidPort => "invalid port number"
  | .invalidIpv4 => "invalid IPv4 address"
  | .invalidIpv6 => "invalid IPv6 address"
  | .invalidDomainCharacter => "invalid domain character"
  | .invalidInternationalName => "invalid international domain name"

namespace Host

/-- A part of a numeric address: decimal, octal after `0`, or hexadecimal after `0x`. -/
def addressPart? (cs : List Char) : Option Nat :=
  match cs with
  | [] => none
  | '0' :: 'x' :: ds | '0' :: 'X' :: ds => inBase 16 (Url.hexValue? ·) ds
  | '0' :: d :: ds => inBase 8 (fun c => if '0' ≤ c ∧ c ≤ '7' then Url.hexValue? c else none) (d :: ds)
  | ds => inBase 10 (fun c => if Decimal.isDigit c then Url.hexValue? c else none) ds
where
  inBase (base : Nat) (digit? : Char → Option Nat) (ds : List Char) : Option Nat :=
    ds.foldlM (fun n c => do return n * base + (← digit? c)) 0

def dropFinalEmpty (parts : List (List Char)) : List (List Char) :=
  if parts.getLast? = some [] then parts.dropLast else parts

/-- The last part of the name is a number, so the name is meant as a numeric address. -/
def endsInNumber (cs : List Char) : Bool :=
  match (dropFinalEmpty (Text.splitList '.' cs)).getLast? with
  | none | some [] => false
  | some last => last.all Decimal.isDigit || (addressPart? last).isSome

/-- At most four parts; all but the last are single bytes, and the last fills the bytes left. -/
def readIpv4 (cs : List Char) : Except UrlFault Host :=
  let parts := dropFinalEmpty (Text.splitList '.' cs)
  match parts.mapM addressPart? with
  | none => .error .invalidIpv4
  | some ns =>
    let leading := ns.dropLast
    let last := ns.getLast?.getD 0
    if 4 < ns.length ∨ leading.any (255 < ·) ∨ 1 <<< (8 * (4 - leading.length)) ≤ last then
      .error .invalidIpv4
    else
      let high := leading.zipIdx.foldl (fun a (n, i) => a + n <<< (8 * (3 - i))) 0
      .ok (.ipv4 (high + last))

def hexPiece? (cs : List Char) : Option Nat :=
  if cs = [] ∨ 4 < cs.length then none
  else cs.foldlM (fun n c => do return n * 16 + (← Url.hexValue? c)) 0

def byte? (cs : List Char) : Option Nat :=
  if cs = [] ∨ 3 < cs.length ∨ (cs.head? = some '0' ∧ 1 < cs.length) ∨
      ¬ cs.all Decimal.isDigit then none
  else
    let n := Decimal.value cs
    if n < 256 then some n else none

/-- The 16-bit pieces between colons; the last group may be four decimal bytes. -/
def ipv6Pieces? : List (List Char) → Option (List Nat)
  | [] => some []
  | [g] =>
    if '.' ∈ g then do
      match ← (Text.splitList '.' g).mapM byte? with
      | [a, b, c, d] => some [a * 256 + b, c * 256 + d]
      | _ => none
    else do return [← hexPiece? g]
  | g :: gs => do return (← hexPiece? g) :: (← ipv6Pieces? gs)

def cutDoubleColon : List Char → Option (List Char × List Char)
  | [] => none
  | ':' :: ':' :: cs => some ([], cs)
  | c :: cs => (cutDoubleColon cs).map fun (a, b) => (c :: a, b)

def groups (cs : List Char) : List (List Char) :=
  if cs = [] then [] else Text.splitList ':' cs

def readIpv6 (cs : List Char) : Except UrlFault Host :=
  let pieces : Option (List Nat) :=
    match cutDoubleColon cs with
    | none => do
      let ns ← ipv6Pieces? (groups cs)
      if ns.length = 8 then some ns else none
    | some (before, behind) => do
      let ns ← (groups before).mapM hexPiece?
      let ms ← ipv6Pieces? (groups behind)
      if ns.length + ms.length < 8 then
        some (ns ++ List.replicate (8 - ns.length - ms.length) 0 ++ ms)
      else none
  match pieces with
  | some ns => .ok (.ipv6 ns)
  | none => .error .invalidIpv6

/-- Control characters, joiners, marks of direction, and what is for private use. -/
def isInvisible (c : Char) : Bool :=
  let n := c.toNat
  n < 0x20 || (0x7F ≤ n && n < 0xA0) || (0x200C ≤ n && n ≤ 0x200F) || (0x202A ≤ n && n ≤ 0x202E) ||
    (0xE000 ≤ n && n ≤ 0xF8FF) || 0xF0000 ≤ n

/-- The characters no domain name holds. -/
def isForbidden (c : Char) : Bool :=
  isInvisible c || Text.isBlank c ||
    c ∈ ['#', '%', '/', ':', '<', '>', '?', '@', '[', '\\', ']', '^', '|']

/-- Lower case of letters and the plain form of full-width ones and of full stops. -/
def foldCase (c : Char) : List Char :=
  let n := c.toNat
  let shifted (k : Nat) := [Char.ofNat (n + k)]
  if n < 0x80 then [c.toLower]
  else if n = 0xAD ∨ n = 0x200B ∨ n = 0x2060 ∨ n = 0xFEFF then []
  else if (0xC0 ≤ n ∧ n ≤ 0xDE ∧ n ≠ 0xD7) then shifted 32
  else if 0x100 ≤ n ∧ n ≤ 0x17F then
    if n = 0x130 then ['i', '\u0307']
    else if n = 0x178 then [Char.ofNat 0xFF]
    else if n = 0x17F then ['s']
    else if (n ≤ 0x137 ∨ (0x14A ≤ n ∧ n ≤ 0x177)) ∧ n % 2 = 0 then shifted 1
    else if ((0x139 ≤ n ∧ n ≤ 0x148) ∨ (0x179 ≤ n ∧ n ≤ 0x17E)) ∧ n % 2 = 1 then shifted 1
    else [c]
  else if 0x391 ≤ n ∧ n ≤ 0x3A9 then shifted 32
  else if 0x410 ≤ n ∧ n ≤ 0x42F then shifted 32
  else if 0x400 ≤ n ∧ n ≤ 0x40F then shifted 80
  else if n = 0x3002 ∨ n = 0xFF0E ∨ n = 0xFF61 then ['.']
  else if 0xFF01 ≤ n ∧ n ≤ 0xFF5E then [(Char.ofNat (n - 0xFEE0)).toLower]
  else [c]

/-- A label in ASCII form. A label that is already in it has to decode to one that needs it, with
its case folded. -/
def asciiLabel? (label : List Char) : Option (List Char) :=
  match label with
  | 'x' :: 'n' :: '-' :: '-' :: rest => do
    let decoded ← Url.Punycode.decode? rest
    if decoded.any (128 ≤ ·.toNat) ∧ Url.Punycode.encode decoded = rest ∧
        decoded.flatMap foldCase = decoded ∧ ¬ decoded.any isForbidden then some label
    else none
  | _ =>
    if label.all (·.toNat < 128) then some label
    else some (['x', 'n', '-', '-'] ++ Url.Punycode.encode label)

/-- A domain name in ASCII form: case folded, each label by itself. -/
def asciiName? (cs : List Char) : Option (List Char) := do
  let folded := cs.flatMap foldCase
  if folded.any isForbidden then none
  else
    let labels ← (Text.splitList '.' folded).mapM asciiLabel?
    return List.intercalate ['.'] labels

/-- The host of a URL with a special scheme: escapes stand for their bytes. -/
def readSpecial (cs : List Char) : Except UrlFault Host :=
  match cs with
  | '[' :: rest =>
    if rest.getLast? = some ']' then readIpv6 rest.dropLast else .error .invalidIpv6
  | cs =>
    match (Text.Utf8.decode? (Url.unescape cs)).bind fun s => asciiName? s.toList with
    | none => .error .invalidInternationalName
    | some [] => .error .emptyHost
    | some name => if endsInNumber name then readIpv4 name else .ok (.domain (String.ofList name))

/-- The host of any other URL: its characters stay, those beyond ASCII escaped. -/
def readOther (cs : List Char) : Except UrlFault Host :=
  match cs with
  | '[' :: rest =>
    if rest.getLast? = some ']' then readIpv6 rest.dropLast else .error .invalidIpv6
  | cs =>
    if cs.any fun c => c ∈ ['\x00', '\t', '\n', '\r', ' ', '#', '/', ':', '<', '>', '?', '@', '[', '\\',
        ']', '^', '|'] then
      .error .invalidDomainCharacter
    else .ok (.domain (String.ofList (Url.escape Url.notControl cs)))

end Host

end CatalogClient
