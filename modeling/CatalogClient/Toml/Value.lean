import CatalogClient.Json.Document
import CatalogClient.Url.Percent
/-!
Keys, strings and values of TOML documents. Of values only texts, integers and truth values are
told apart; dates, fractional numbers, arrays and tables are read and checked, not kept.
-/

namespace CatalogClient.Toml

inductive Value
  | string (s : String)
  | integer (n : Int)
  | bool (b : Bool)
  /-- A date, a fractional number, an array or a table. -/
  | other
  deriving DecidableEq, Repr

def isSpace (c : Char) : Bool := c = ' ' || c = '\t'

def skip (cs : List Char) : List Char := cs.dropWhile isSpace

def lineBreak? : List Char → Option (List Char)
  | '\n' :: cs => some cs
  | '\r' :: '\n' :: cs => some cs
  | _ => none

/-- Control characters other than the tab stand in no comment and no string. -/
def isControl (c : Char) : Bool := (c.toNat < 0x20 && c != '\t') || c.toNat = 0x7F

def skipComment (cs : List Char) : Option (List Char) :=
  match cs with
  | '#' :: cs =>
    let rest := cs.dropWhile (! isControl ·)
    if rest = [] ∨ (lineBreak? rest).isSome then some rest else none
  | cs => some cs

/-- Blanks, comments and line breaks. -/
def skipLines : Nat → List Char → Option (List Char)
  | 0, cs => some cs
  | fuel + 1, cs => do
    let cs ← skipComment (skip cs)
    match lineBreak? cs with
    | some cs => skipLines fuel cs
    | none => some cs

def hexDigits? (n : Nat) (cs : List Char) : Option (Nat × List Char) :=
  if (cs.take n).length < n then none
  else do
    let v ← (cs.take n).foldlM (fun v c => do return v * 16 + (← Json.Document.hexValue? c)) 0
    return (v, cs.drop n)

def scalar? (n : Nat) : Option Char :=
  if n < 0xD800 ∨ (0xE000 ≤ n ∧ n ≤ 0x10FFFF) then some (Char.ofNat n) else none

def escape? (cs : List Char) : Option (Char × List Char) :=
  match cs with
  | 'b' :: cs => some ('\x08', cs)
  | 't' :: cs => some ('\t', cs)
  | 'n' :: cs => some ('\n', cs)
  | 'f' :: cs => some ('\x0c', cs)
  | 'r' :: cs => some ('\r', cs)
  | '"' :: cs => some ('"', cs)
  | '\\' :: cs => some ('\\', cs)
  | 'u' :: cs => do
    let (n, rest) ← hexDigits? 4 cs
    return (← scalar? n, rest)
  | 'U' :: cs => do
    let (n, rest) ← hexDigits? 8 cs
    return (← scalar? n, rest)
  | _ => none

/-- A string of one line behind its opening quotation mark; only double quotes know escapes. -/
def readLineString (quote : Char) : Nat → List Char → Option (List Char × List Char)
  | 0, _ => none
  | _, [] => none
  | fuel + 1, c :: cs =>
    if c = quote then some ([], cs)
    else if isControl c then none
    else if c = '\\' ∧ quote = '"' then do
      let (e, cs) ← escape? cs
      let (s, rest) ← readLineString quote fuel cs
      return (e :: s, rest)
    else do
      let (s, rest) ← readLineString quote fuel cs
      return (c :: s, rest)

/-- Blanks and line breaks behind a backslash at the end of a line. -/
def skipFolded (cs : List Char) : List Char :=
  cs.dropWhile fun c => isSpace c || c = '\n' || c = '\r'

/-- A string of several lines behind its three opening quotation marks. Up to two quotation marks
may stand before the three that close it. -/
def readBlockString (quote : Char) : Nat → List Char → Option (List Char × List Char)
  | 0, _ => none
  | _, [] => none
  | fuel + 1, c :: cs =>
    if c = quote then
      let run := (c :: cs).takeWhile (· = quote)
      let rest := (c :: cs).dropWhile (· = quote)
      if 5 < run.length then none
      else if 3 ≤ run.length then some (List.replicate (run.length - 3) quote, rest)
      else do
        let (s, rest) ← readBlockString quote fuel rest
        return (run ++ s, rest)
    else if c = '\n' then do
      let (s, rest) ← readBlockString quote fuel cs
      return ('\n' :: s, rest)
    else if c = '\r' then
      match cs with
      | '\n' :: cs => do
        let (s, rest) ← readBlockString quote fuel cs
        return ('\n' :: s, rest)
      | _ => none
    else if isControl c then none
    else if c = '\\' ∧ quote = '"' then
      if (lineBreak? (skip cs)).isSome then readBlockString quote fuel (skipFolded cs)
      else do
        let (e, cs) ← escape? cs
        let (s, rest) ← readBlockString quote fuel cs
        return (e :: s, rest)
    else do
      let (s, rest) ← readBlockString quote fuel cs
      return (c :: s, rest)

/-- A line break right behind the opening marks does not belong to the string. -/
def dropFirstBreak (cs : List Char) : List Char := (lineBreak? cs).getD cs

def readString (cs : List Char) : Option (String × List Char) :=
  let fuel := cs.length + 1
  let result := match cs with
    | '"' :: '"' :: '"' :: cs => readBlockString '"' fuel (dropFirstBreak cs)
    | '"' :: cs => readLineString '"' fuel cs
    | c :: cs =>
      if c.toNat = 0x27 then
        match cs with
        | a :: b :: rest =>
          if a = c ∧ b = c then readBlockString c fuel (dropFirstBreak rest)
          else readLineString c fuel cs
        | cs => readLineString c fuel cs
      else none
    | [] => none
  result.map fun (s, rest) => (String.ofList s, rest)

def isBareKey (c : Char) : Bool := Url.isAsciiAlphanumeric c || c = '_' || c = '-'

/-- One part of a key: bare, or a string of one line. -/
def readKeyPart (cs : List Char) : Option (String × List Char) :=
  match cs with
  | '"' :: rest => (readLineString '"' (rest.length + 1) rest).map fun (s, r) => (String.ofList s, r)
  | c :: rest =>
    if c.toNat = 0x27 then
      (readLineString c (rest.length + 1) rest).map fun (s, r) => (String.ofList s, r)
    else
      let bare := cs.takeWhile isBareKey
      if bare = [] then none else some (String.ofList bare, cs.dropWhile isBareKey)
  | [] => none

/-- The parts of a key, separated by points, and the text behind it without blanks. -/
def readKey : Nat → List Char → Option (List String × List Char)
  | 0, _ => none
  | fuel + 1, cs => do
    let (part, cs) ← readKeyPart (skip cs)
    match skip cs with
    | '.' :: cs => do
      let (parts, cs) ← readKey fuel cs
      return (part :: parts, cs)
    | cs => return ([part], cs)

def isDigitRun (digit : Char → Bool) (cs : List Char) : Bool :=
  (Text.splitList '_' cs).all fun run => run != [] && run.all digit

def withoutUnderscores (cs : List Char) : List Char := cs.filter (· != '_')

def digitsIn (base : Nat) (cs : List Char) : Nat :=
  (withoutUnderscores cs).foldl (fun n c => n * base + (Json.Document.hexValue? c).getD 0) 0

def isHex (c : Char) : Bool := (Json.Document.hexValue? c).isSome

def isUnsignedDecimal (cs : List Char) : Bool :=
  isDigitRun Decimal.isDigit cs && (cs.head? != some '0' || cs.length = 1)

/-- Integers in the bases 10, 16, 8 and 2. A sign stands before decimal ones only, and they have no
superfluous zero in front. -/
def integer? (cs : List Char) : Option Int :=
  match cs with
  | '0' :: 'x' :: ds => if isDigitRun isHex ds then some (digitsIn 16 ds) else none
  | '0' :: 'o' :: ds =>
    if isDigitRun (fun c => '0' ≤ c && c ≤ '7') ds then some (digitsIn 8 ds) else none
  | '0' :: 'b' :: ds =>
    if isDigitRun (fun c => c = '0' || c = '1') ds then some (digitsIn 2 ds) else none
  | '+' :: ds => if isUnsignedDecimal ds then some (digitsIn 10 ds) else none
  | '-' :: ds => if isUnsignedDecimal ds then some (-(digitsIn 10 ds)) else none
  | ds => if isUnsignedDecimal ds then some (digitsIn 10 ds) else none

def dropSign : List Char → List Char
  | '+' :: cs => cs
  | '-' :: cs => cs
  | cs => cs

/-- Fractional numbers: an integer part, and a fraction or an exponent or both; or a word. -/
def isFloat (cs : List Char) : Bool :=
  let cs := dropSign cs
  if cs = ['i', 'n', 'f'] ∨ cs = ['n', 'a', 'n'] then true
  else
    let (mantissa, exponent) :=
      (cs.takeWhile fun c => c != 'e' && c != 'E', cs.dropWhile fun c => c != 'e' && c != 'E')
    let (whole, fraction) := match Text.cut? '.' mantissa with
      | some (a, b) => (a, some b)
      | none => (mantissa, none)
    isUnsignedDecimal whole &&
      (match fraction with | some f => isDigitRun Decimal.isDigit f | none => true) &&
      (match exponent with | [] => true | _ :: e => isDigitRun Decimal.isDigit (dropSign e)) &&
      (fraction.isSome || exponent != [])

/-- A text with a pattern in which `0` stands for a digit. -/
def fits (pattern cs : List Char) : Bool :=
  pattern.length = cs.length && (pattern.zip cs).all fun (p, c) =>
    if p = '0' then Decimal.isDigit c else p = c

def fieldAt (start length : Nat) (cs : List Char) : Nat :=
  Decimal.value ((cs.drop start).take length)

def isDate (cs : List Char) : Bool :=
  fits "0000-00-00".toList cs &&
    (let y := fieldAt 0 4 cs
     let m := fieldAt 5 2 cs
     let d := fieldAt 8 2 cs
     let leap := y % 4 = 0 && (y % 100 != 0 || y % 400 = 0)
     let days := if m = 2 then (if leap then 29 else 28) else if m ∈ [4, 6, 9, 11] then 30 else 31
     1 ≤ m && m ≤ 12 && 1 ≤ d && d ≤ days)

def isTime (cs : List Char) : Bool :=
  let (clock, fraction) := (cs.take 8, cs.drop 8)
  fits "00:00:00".toList clock && fieldAt 0 2 clock < 24 && fieldAt 3 2 clock < 60 &&
    fieldAt 6 2 clock ≤ 60 &&
    (match fraction with
      | [] => true
      | '.' :: ds => ds != [] && ds.all Decimal.isDigit
      | _ => false)

def isOffset (cs : List Char) : Bool :=
  match cs with
  | [] | ['Z'] | ['z'] => true
  | '+' :: t | '-' :: t => fits "00:00".toList t && fieldAt 0 2 t < 24 && fieldAt 3 2 t < 60
  | _ => false

/-- A date, a time, or both with an optional offset. -/
def isDateTime (cs : List Char) : Bool :=
  isDate cs || isTime cs ||
    (isDate (cs.take 10) &&
      match cs.drop 10 with
      | sep :: rest =>
        let time := rest.takeWhile fun c => Decimal.isDigit c || c = ':' || c = '.'
        (sep = 'T' || sep = 't' || sep = ' ') && isTime time && isOffset (rest.drop time.length)
      | [] => false)

def isScalarChar (c : Char) : Bool :=
  Url.isAsciiAlphanumeric c || c = '+' || c = '-' || c = '.' || c = '_' || c = ':'

/-- The characters of a scalar that is no string. A date may have a blank before its time. -/
def scalarText (cs : List Char) : List Char :=
  let first := cs.takeWhile isScalarChar
  match cs.drop first.length with
  | ' ' :: d :: rest =>
    if isDate first ∧ Decimal.isDigit d then first ++ ' ' :: (d :: rest).takeWhile isScalarChar
    else first
  | _ => first

def scalarValue? (cs : List Char) : Option Value :=
  if cs = ['t', 'r', 'u', 'e'] then some (.bool true)
  else if cs = ['f', 'a', 'l', 's', 'e'] then some (.bool false)
  else match integer? cs with
    | some n => some (.integer n)
    | none => if isFloat cs ∨ isDateTime cs then some .other else none

mutual

def readValue : Nat → List Char → Option (Value × List Char)
  | 0, _ => none
  | fuel + 1, cs =>
    match cs with
    | '[' :: cs => (readArray fuel cs).map fun rest => (.other, rest)
    | '\x7b' :: cs =>
      match skip cs with
      | '\x7d' :: cs => some (.other, cs)
      | cs => (readInline fuel [] cs).map fun rest => (.other, rest)
    | c :: _ =>
      if c = '"' ∨ c.toNat = 0x27 then (readString cs).map fun (s, rest) => (.string s, rest)
      else
        let text := scalarText cs
        (scalarValue? text).map fun v => (v, cs.drop text.length)
    | [] => none

/-- The text behind an array, whose opening bracket has been read. -/
def readArray : Nat → List Char → Option (List Char)
  | 0, _ => none
  | fuel + 1, cs => do
    match ← skipLines (cs.length + 1) cs with
    | ']' :: cs => some cs
    | cs =>
      let (_, cs) ← readValue fuel cs
      match ← skipLines (cs.length + 1) cs with
      | ',' :: cs => readArray fuel cs
      | ']' :: cs => some cs
      | _ => none

/-- The text behind a table in braces, given the keys that stand in it so far. -/
def readInline : Nat → List (List String) → List Char → Option (List Char)
  | 0, _, _ => none
  | fuel + 1, keys, cs => do
    let (key, cs) ← readKey (cs.length + 1) cs
    if keys.any fun k => k.isPrefixOf key || key.isPrefixOf k && k.length = key.length then none
    else
      match cs with
      | '=' :: cs =>
        let (_, cs) ← readValue fuel (skip cs)
        match skip cs with
        | ',' :: cs => readInline fuel (key :: keys) cs
        | '\x7d' :: cs => some cs
        | _ => none
      | _ => none

end

end CatalogClient.Toml
