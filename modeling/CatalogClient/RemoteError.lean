import CatalogClient.Response
/-!
The error document of the service, and the failure an answer that is no success stands for.
-/

namespace CatalogClient

/-- One complaint of an error document. -/
structure RemoteViolation where
  property : Option String
  attributeCode : Option String
  message : Option String
  deriving DecidableEq, Repr

structure RemoteError where
  code : Option Nat
  message : Option String
  errors : List RemoteViolation
  deriving DecidableEq, Repr

open Json Json.Decode

namespace RemoteViolation

def decoder : Decoder RemoteViolation := fun depth d => do
  let fs ← fields ["property", "attribute", "message"] depth d
  return ⟨← fs.defaulted "property" (option string) none,
    ← fs.defaulted "attribute" (option string) none, ← fs.defaulted "message" (option string) none⟩

/-- The attribute complained about, or else the property. -/
def toViolation? (v : RemoteViolation) : Option Violation :=
  (v.attributeCode.or v.property).map fun p => ⟨p, v.message.getD ""⟩

end RemoteViolation

namespace RemoteError

/-- The document that says nothing. -/
def silent : RemoteError := ⟨none, none, []⟩

def decoder : Decoder RemoteError := fun depth d => do
  let fs ← fields ["code", "message", "errors"] depth d
  return ⟨← fs.defaulted "code" (option nat16) none, ← fs.defaulted "message" (option string) none,
    ← fs.defaulted "errors" (list RemoteViolation.decoder) []⟩

/-- A body that is no error document as a whole says nothing. -/
def ofBody (body : List UInt8) : RemoteError := (bytes? decoder body).getD silent

def violations (e : RemoteError) : List Violation := e.errors.filterMap RemoteViolation.toViolation?

end RemoteError

namespace Response

/-- The beginning of the body, or the status where the body is blank. -/
def fallbackMessage (r : Response) : String :=
  let text := Text.trim r.text
  if text = "" then "request failed with status " ++ String.ofList (Decimal.write r.status)
  else String.ofList (text.toList.take 512)

/-- The failure that an answer to a request for `path` stands for. -/
def toFailure (r : Response) (path : String) : Failure :=
  let remote := RemoteError.ofBody r.body
  let message := remote.message.getD r.fallbackMessage
  match r.status with
  | 401 | 403 => .authentication (some r.status) message
  | 400 | 422 =>
    .validation (some r.status) message (remote.violations.head?.map (·.property)) remote.violations
  | 404 => .notFound path message
  | 429 => .rateLimited r.retryAfter? message
  | _ => .api r.status message

end Response

end CatalogClient
