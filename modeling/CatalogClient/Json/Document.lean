import CatalogClient.Json.Value
import CatalogClient.Text.Utf8
/-!
JSON texts as they are written: literals unread, keys in their order and with repetitions, and
strings that hold a lone surrogate escape or bytes that are no text marked as having no value. What
a reader of a document does not look at may hold such strings and numbers of any size.
-/

namespace CatalogClient.Json

inductive Document
  | null
  | bool (b : Bool)
  | number (l : Literal)
  | string (s : Option String)
  | array (items : List Document)
  | object (members : List (Option String × Document))
  deriving Repr, Inhabited

namespace Document

def isSpace (c : Char) : Bool := c = ' ' || c = '\t' || c = '\n' || c = '\r'

def skip (cs : List Char) : List Char := cs.dropWhile isSpace

def hexValue? (c : Char) : Option Nat :=
  if '0' ≤ c ∧ c ≤ '9' then some (c.toNat - 48)
  else if 'a' ≤ c ∧ c ≤ 'f' then some (c.toNat - 87)
  else if 'A' ≤ c ∧ c ≤ 'F' then some (c.toNat - 55)
  else none

def hexUnit? (a b c d : Char) : Option Nat := do
  return (((← hexValue? a) * 16 + (← hexValue? b)) * 16 + (← hexValue? c)) * 16 + (← hexValue? d)

def shortEscape? (c : Char) : Option Char :=
  match c with
  | '"' => some '"'
  | '\\' => some '\\'
  | '/' => some '/'
  | 'b' => some '\x08'
  | 'f' => some '\x0c'
  | 'n' => some '\n'
  | 'r' => some '\r'
  | 't' => some '\t'
  | _ => none

/-- A piece of a string: a character, or the 16-bit unit of a numeric escape. -/
inductive Piece
  | char (c : Char)
  | unit (n : Nat)
  deriving DecidableEq, Repr

/-- The pieces of a string behind its opening quote, and the text behind its closing one. -/
def readPieces : List Char → Option (List Piece × List Char)
  | [] => none
  | '"' :: cs => some ([], cs)
  | '\\' :: 'u' :: a :: b :: c :: d :: cs => do
    let n ← hexUnit? a b c d
    let (ps, rest) ← readPieces cs
    return (.unit n :: ps, rest)
  | '\\' :: e :: cs => do
    let c ← shortEscape? e
    let (ps, rest) ← readPieces cs
    return (.char c :: ps, rest)
  | c :: cs =>
    if c.toNat < 0x20 ∨ c = '\\' then none
    else do
      let (ps, rest) ← readPieces cs
      return (.char c :: ps, rest)

def isHighSurrogate (n : Nat) : Bool := 0xD800 ≤ n && n < 0xDC00

def isLowSurrogate (n : Nat) : Bool := 0xDC00 ≤ n && n < 0xE000

/-- A high surrogate and the low one behind it are one character; no surrogate stands alone. -/
def joinPieces : List Piece → Option (List Char)
  | [] => some []
  | .char c :: ps => (joinPieces ps).map (c :: ·)
  | .unit n :: ps =>
    if isHighSurrogate n then
      match ps with
      | .unit m :: ps =>
        if isLowSurrogate m then
          (joinPieces ps).map (Char.ofNat (0x10000 + (n - 0xD800) * 1024 + (m - 0xDC00)) :: ·)
        else none
      | _ => none
    else if isLowSurrogate n then none
    else (joinPieces ps).map (Char.ofNat n :: ·)

def readString (cs : List Char) : Option (Option String × List Char) := do
  let (ps, rest) ← readPieces cs
  return ((joinPieces ps).map String.ofList, rest)

def spanDigits (cs : List Char) : List Char × List Char :=
  (cs.takeWhile Decimal.isDigit, cs.dropWhile Decimal.isDigit)

/-- Digits without a superfluous zero in front. -/
def readWhole (cs : List Char) : Option (List Char × List Char) :=
  match spanDigits cs with
  | ([], _) => none
  | ('0' :: _ :: _, _) => none
  | p => some p

def readFraction (cs : List Char) : Option (Option (List Char) × List Char) :=
  match cs with
  | '.' :: cs =>
    match spanDigits cs with
    | ([], _) => none
    | (ds, rest) => some (some ds, rest)
  | cs => some (none, cs)

def readExponent (cs : List Char) : Option (Option (Bool × List Char) × List Char) :=
  match cs with
  | 'e' :: cs | 'E' :: cs =>
    let (negative, cs) := match cs with
      | '-' :: cs => (true, cs)
      | '+' :: cs => (false, cs)
      | cs => (false, cs)
    match spanDigits cs with
    | ([], _) => none
    | (ds, rest) => some (some (negative, ds), rest)
  | cs => some (none, cs)

def readNumber (cs : List Char) : Option (Literal × List Char) := do
  let (negative, cs) := match cs with
    | '-' :: cs => (true, cs)
    | cs => (false, cs)
  let (whole, cs) ← readWhole cs
  let (fraction, cs) ← readFraction cs
  let (exponent, cs) ← readExponent cs
  return (⟨negative, whole, fraction, exponent⟩, cs)

mutual

/-- A value at the head of a text, and the text behind it. The first argument bounds the number of
steps. -/
def readValue : Nat → List Char → Option (Document × List Char)
  | 0, _ => none
  | fuel + 1, cs =>
    match skip cs with
    | 'n' :: 'u' :: 'l' :: 'l' :: cs => some (.null, cs)
    | 't' :: 'r' :: 'u' :: 'e' :: cs => some (.bool true, cs)
    | 'f' :: 'a' :: 'l' :: 's' :: 'e' :: cs => some (.bool false, cs)
    | '"' :: cs => (readString cs).map fun (s, rest) => (.string s, rest)
    | '[' :: cs =>
      match skip cs with
      | ']' :: cs => some (.array [], cs)
      | cs => (readItems fuel cs).map fun (xs, rest) => (.array xs, rest)
    | '\x7b' :: cs =>
      match skip cs with
      | '\x7d' :: cs => some (.object [], cs)
      | cs => (readMembers fuel cs).map fun (ms, rest) => (.object ms, rest)
    | cs => (readNumber cs).map fun (l, rest) => (.number l, rest)

def readItems : Nat → List Char → Option (List Document × List Char)
  | 0, _ => none
  | fuel + 1, cs => do
    let (x, cs) ← readValue fuel cs
    match skip cs with
    | ',' :: cs => (readItems fuel cs).map fun (xs, rest) => (x :: xs, rest)
    | ']' :: cs => some ([x], cs)
    | _ => none

def readMembers : Nat → List Char → Option (List (Option String × Document) × List Char)
  | 0, _ => none
  | fuel + 1, cs => do
    let (k, cs) ← match skip cs with
      | '"' :: cs => readString cs
      | _ => none
    let cs ← match skip cs with
      | ':' :: cs => some cs
      | _ => none
    let (x, cs) ← readValue fuel cs
    match skip cs with
    | ',' :: cs => (readMembers fuel cs).map fun (ms, rest) => ((k, x) :: ms, rest)
    | '\x7d' :: cs => some ([(k, x)], cs)
    | _ => none

end

/-- The document a whole text is: a value with blanks around it. Every step but the last leads to
a shorter text or, once in a row, to one of the same length. -/
def read? (s : String) : Option Document := do
  let cs := s.toList
  let (d, rest) ← readValue (2 * cs.length + 2) cs
  if skip rest = [] then some d else none

mutual

/-- What two readings have in common: a string that they read in two ways has no value. -/
def common : Document → Document → Document
  | .string s, .string t => .string (if s = t then s else none)
  | .array xs, .array ys => .array (commonItems xs ys)
  | .object ms, .object ns => .object (commonMembers ms ns)
  | d, _ => d

def commonItems : List Document → List Document → List Document
  | x :: xs, y :: ys => common x y :: commonItems xs ys
  | _, _ => []

def commonMembers :
    List (Option String × Document) → List (Option String × Document) →
      List (Option String × Document)
  | (k, x) :: ms, (l, y) :: ns => (if k = l then k else none, common x y) :: commonMembers ms ns
  | _, _ => []

end

/-- The document that bytes are. Bytes that are no text may stand in strings only: with one letter
in their place the document reads like it does with another, save for those strings. -/
def ofBytes? (bytes : List UInt8) : Option Document :=
  match Text.Utf8.decode? bytes with
  | some s => read? s
  | none => do
    let d ← read? (Text.Utf8.decodeWith 'x' bytes)
    let e ← read? (Text.Utf8.decodeWith 'y' bytes)
    return common d e

mutual

/-- The value of a document, if its strings have values, its numbers are in range, and no more
than `depth` arrays and objects enclose one another. Of members with one key the last counts. -/
def toJson? : Nat → Document → Option Json
  | _, .null => some .null
  | _, .bool b => some (.bool b)
  | _, .number l => (Number.ofLiteral? l).map .number
  | _, .string s => s.map .string
  | 0, .array _ => none
  | 0, .object _ => none
  | depth + 1, .array xs => (toItems? depth xs).map .array
  | depth + 1, .object ms => (toMembers? depth ms).map ofMembers

def toItems? : Nat → List Document → Option (List Json)
  | _, [] => some []
  | depth, x :: xs => do
    let x ← toJson? depth x
    let xs ← toItems? depth xs
    return x :: xs

def toMembers? : Nat → List (Option String × Document) → Option (List (String × Json))
  | _, [] => some []
  | depth, (k, x) :: ms => do
    let k ← k
    let x ← toJson? depth x
    let ms ← toMembers? depth ms
    return (k, x) :: ms

end

/-- How many arrays and objects may enclose one another. -/
def maxDepth : Nat := 127

end Document

def read? (s : String) : Option Json := do
  let d ← Document.read? s
  d.toJson? Document.maxDepth

end CatalogClient.Json
