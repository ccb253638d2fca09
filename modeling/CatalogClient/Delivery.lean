import CatalogClient.Attempt
import CatalogClient.Text.Utf8
/-!
What keeps a message from being sent: names and values of headers that no header may have, content
types of parts that are none, and URLs of other schemes than those of the web.
-/

namespace CatalogClient.Delivery

def isTokenChar (c : Char) : Bool :=
  Url.isAsciiAlphanumeric c ||
    c ∈ ['!', '#', '$', '%', '&', '*', '+', '-', '.', '^', '_', '|', '~'] ||
    c.toNat = 0x27 || c.toNat = 0x60

def isHeaderName (s : String) : Bool := s ≠ "" && s.toList.all isTokenChar

def isHeaderValue (s : String) : Bool :=
  s.toList.all fun c => c = '\t' || (0x20 ≤ c.toNat && c.toNat ≠ 0x7F)

def isQuotedChar (c : Char) : Bool := 0x1F < c.toNat && c.toNat ≠ 0x7F

/-- Behind the closing quote of a parameter: blanks up to the next parameter. -/
def afterQuote : List Char → Option (List Char)
  | [] => some []
  | ';' :: cs => some cs
  | ' ' :: cs => afterQuote cs
  | _ :: _ => none

/-- The value of a parameter, and what is behind it and its semicolon. An unquoted value may be
empty at the end of the text only. -/
def paramValue (cs : List Char) : Option (List Char) :=
  match cs with
  | '"' :: cs =>
    match cs.dropWhile fun c => isQuotedChar c && c ≠ '"' with
    | '"' :: rest => if cs.head? = some '"' then emptyQuoted cs else afterQuote rest
    | _ => none
  | cs =>
    match cs.dropWhile isTokenChar with
    | [] => some []
    | ';' :: rest => if cs.head? = some ';' then none else some rest
    | _ => none
where
  /-- A quote right behind the opening one does not close it. -/
  emptyQuoted (cs : List Char) : Option (List Char) :=
    match (cs.drop 1).dropWhile fun c => isQuotedChar c && c ≠ '"' with
    | '"' :: rest => afterQuote rest
    | _ => none

/-- Parameters, each a name, an equals sign and a value; blanks may stand before a name. -/
def areParams : Nat → List Char → Bool
  | 0, _ => false
  | _ + 1, [] => true
  | fuel + 1, ' ' :: cs => areParams fuel cs
  | fuel + 1, cs =>
    match cs.dropWhile isTokenChar with
    | '=' :: rest =>
      if cs.head? = some '=' then false
      else match paramValue rest with
        | some rest => areParams fuel rest
        | none => false
    | _ => false

/-- A type, a slash, a subtype, and parameters behind a semicolon or a blank. -/
def isMediaType (s : String) : Bool :=
  let cs := s.toList
  match cs.dropWhile isTokenChar with
  | '/' :: rest =>
    if cs.head? = some '/' then false
    else match rest.dropWhile isTokenChar with
      | [] => true
      | c :: params =>
        (c = ';' || c = ' ') && rest.head? ≠ some c && areParams (params.length + 1) params
  | _ => false

def unsendable (detail : String) : Failure := .internal ("failed to build request: " ++ detail)

/-- The first part whose content type is none. -/
def checkParts (parts : List Part) : Except Failure Unit :=
  match parts.find? fun p => p.contentType.any (! isMediaType ·) with
  | some p => .error (.invalidField p.name "invalid content type: not a media type")
  | none => .ok ()

/-- The message can be sent. -/
def check (a : Attempt) : Except Failure Unit := do
  if let .form parts := a.body then checkParts parts
  if ! a.headers.all fun (k, v) => isHeaderName k && isHeaderValue v then
    throw (unsendable "malformed header")
  if let .raw contentType _ := a.body then
    if ! isHeaderValue contentType then throw (unsendable "malformed content type")
  if a.url.scheme ≠ "http" ∧ a.url.scheme ≠ "https" then throw (unsendable "unsupported scheme")

/-- What an attempt comes to where nobody listens. -/
def atClosedPort (a : Attempt) : Failure :=
  match check a with
  | .error f => f
  | .ok () => .connect "HTTP request failed: connection refused"

/-- A name by which a client may introduce itself. -/
def checkUserAgent (agent : Option String) : Except Failure Unit :=
  if agent.all isHeaderValue then .ok ()
  else .error (.config "failed to build HTTP client: malformed user agent")

end CatalogClient.Delivery
