import CatalogClient.Json.Decode
import CatalogClient.Time.Span
import CatalogClient.Url.Host
/-!
What can go wrong in a call that a caller can observe, with its text. Conditions that the caller
can mend are told apart from those that may pass by themselves.
-/

namespace CatalogClient

/-- A property the service complains about. -/
structure Violation where
  property : String
  message : String
  deriving DecidableEq, Repr

namespace Violation

open Json.Decode

def decoder : Json.Decoder Violation := fun depth d => do
  let fs ← fields ["property", "message"] depth d
  return ⟨← fs.required "property" string, ← fs.required "message" string⟩

def toJson (v : Violation) : Json :=
  Json.ofMembers [("property", .string v.property), ("message", .string v.message)]

end Violation

inductive Category
  | authentication
  | validation
  | notFound
  | rateLimit
  | api
  | network
  | timeout
  | config
  | decode
  | internal
  deriving DecidableEq, Repr

namespace Category

def all : List Category :=
  [.authentication, .validation, .notFound, .rateLimit, .api, .network, .timeout, .config, .decode,
    .internal]

def label : Category → String
  | .authentication => "authentication"
  | .validation => "validation"
  | .notFound => "not_found"
  | .rateLimit => "rate_limit"
  | .api => "api"
  | .network => "network"
  | .timeout => "timeout"
  | .config => "config"
  | .decode => "decode"
  | .internal => "internal"

def decoder : Json.Decoder Category := Json.Decode.named all label

end Category

inductive Failure
  /-- The credential was rejected, or none could be obtained. -/
  | authentication (status : Option Nat) (message : String)
  /-- The request is malformed; without a status the fault was found before anything was sent. -/
  | validation (status : Option Nat) (message : String) (field : Option String)
      (violations : List Violation)
  | notFound (path message : String)
  | rateLimited (retryAfter : Option Span) (message : String)
  /-- Any other answer that is no success. -/
  | api (status : Nat) (message : String)
  /-- The connection failed during a single attempt. -/
  | network (message : String) (timedOut requestSent : Bool)
  /-- The deadline of a whole call passed. -/
  | timeout (elapsed : Span)
  | config (message : String)
  | decode (message : String)
  | internal (message : String)
  deriving DecidableEq, Repr

namespace Failure

def message : Failure → String
  | .authentication _ m => "Authentication failed: " ++ m
  | .validation _ m _ _ => "Validation failed: " ++ m
  | .notFound path m => "Not found: " ++ path ++ ": " ++ m
  | .rateLimited _ m => "Rate limit exceeded: " ++ m
  | .api status m => "API error " ++ String.ofList (Decimal.write status) ++ ": " ++ m
  | .network m _ _ => "Network error: " ++ m
  | .timeout elapsed => "Timeout after " ++ elapsed.describe
  | .config m => "Configuration error: " ++ m
  | .decode m => "Decode error: " ++ m
  | .internal m => "Internal error: " ++ m

def category : Failure → Category
  | .authentication .. => .authentication
  | .validation .. => .validation
  | .notFound .. => .notFound
  | .rateLimited .. => .rateLimit
  | .api .. => .api
  | .network .. => .network
  | .timeout .. => .timeout
  | .config .. => .config
  | .decode .. => .decode
  | .internal .. => .internal

/-- The condition may pass if the same request is sent again. -/
def isRetryable : Failure → Bool
  | .rateLimited .. | .network .. | .api .. => true
  | _ => false

/-- The caller can mend the condition by another request. -/
def isCallerError : Failure → Bool
  | .validation .. | .notFound .. | .config .. => true
  | _ => false

def status? : Failure → Option Nat
  | .authentication status _ => status
  | .validation status .. => status
  | .notFound .. => some 404
  | .rateLimited .. => some 429
  | .api status _ => some status
  | _ => none

def retryAfter? : Failure → Option Span
  | .rateLimited retryAfter _ => retryAfter
  | _ => none

def field? : Failure → Option String
  | .validation _ _ field _ => field
  | _ => none

/-- A fault of one field, found before anything was sent. -/
def invalidField (field message : String) : Failure :=
  .validation none message (some field) [⟨field, message⟩]

/-- The connection could not be made, so the request never reached the service. -/
def connect (message : String) : Failure := .network message false false

def invalidUrl (fault : UrlFault) : Failure := .config ("invalid URL: " ++ fault.message)

end Failure

end CatalogClient
