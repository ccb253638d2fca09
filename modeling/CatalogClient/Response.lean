import CatalogClient.Decimal.Reader
import CatalogClient.Failure
import CatalogClient.Json.Decode
import CatalogClient.Text.Utf8
/-!
The answer to one attempt. Names of headers are kept in lower case.
-/

namespace CatalogClient

structure Response where
  status : Nat
  headers : List (String × String)
  body : List UInt8
  elapsed : Span
  /-- The number of the attempt in its call, from one. -/
  attempt : Nat
  deriving DecidableEq, Repr

namespace Response

def make (status : Nat) (headers : List (String × String)) (body : List UInt8) : Response :=
  ⟨status, headers.map fun (k, v) => (Text.lowerAscii k, v), body, .zero, 1⟩

def isSuccessStatus (status : Nat) : Bool := 200 ≤ status && status < 300

def isSuccess (r : Response) : Bool := isSuccessStatus r.status

def header? (r : Response) (name : String) : Option String :=
  (r.headers.find? fun (k, _) => Text.sameIgnoringCase k name).map (·.2)

def location? (r : Response) : Option String := r.header? "location"

/-- No pause the service asks for is longer. -/
def longestPause : Span := Span.ofSeconds 3600

/-- The pause a header value asks for: a number of seconds that is finite and not negative, cut
to the longest pause. -/
def pause? (value : String) : Option Span := do
  let x ← Decimal.readFloat? (Text.trim value)
  if ¬ x.isFinite ∨ (x.isNegative ∧ ¬ x.isZero) then none
  else match Span.ofBinary64? x with
    | none => some longestPause
    | some s => some (min s longestPause)

def retryAfter? (r : Response) : Option Span := (r.header? "retry-after").bind pause?

def isAsciiBlank (b : UInt8) : Bool := b = 0x20 || b = 0x09 || b = 0x0A || b = 0x0C || b = 0x0D

def isEmpty (r : Response) : Bool := r.body.all isAsciiBlank

def text (r : Response) : String := Text.Utf8.decodeLossy r.body

/-- The text behind the colon of a failure to read a document. -/
def unreadable : String := "not a document of the expected form"

/-- The typed value of the body, an empty body standing for `null`. -/
def decode (r : Response) (f : Json.Decoder α) : Except Failure α :=
  if r.isEmpty then
    match f Json.Document.maxDepth .null with
    | some a => .ok a
    | none => .error (.decode ("empty response body (status " ++ String.ofList (Decimal.write r.status) ++
        ") cannot be decoded into the requested type"))
  else
    match Json.Decode.bytes? f r.body with
    | some a => .ok a
    | none => .error (.decode ("failed to parse response: " ++ unreadable))

end Response

end CatalogClient
