import CatalogClient.Config
import CatalogClient.Json.Decode
import CatalogClient.Toml.Document
/-!
Settings by name, as a document gives them. Documents of either format are looked up in the same
way: required settings have to be there, others fall back to their defaults, and a setting of
another type than its own is refused.
-/

namespace CatalogClient

inductive Setting
  | text (s : String)
  | number (n : Int)
  | flag (b : Bool)
  | null
  /-- A value of no type that a setting has. -/
  | other
  deriving DecidableEq, Repr

namespace Setting

def ofDocument : Json.Document → Setting
  | .null => .null
  | .bool b => .flag b
  | .string (some s) => .text s
  | .number l =>
    match Json.Number.ofLiteral? l with
    | some (.integer n _) => .number n
    | _ => .other
  | _ => .other

def ofToml : Toml.Value → Setting
  | .string s => .text s
  | .integer n => .number n
  | .bool b => .flag b
  | .other => .other

def text? : Setting → Option String
  | .text s => some s
  | _ => none

/-- A number that is not negative and below `bound`. -/
def natBelow? (bound : Nat) : Setting → Option Nat
  | .number n => if 0 ≤ n ∧ n < bound then some n.toNat else none
  | _ => none

def nat32? : Setting → Option Nat := natBelow? Width.beyond32

def nat64? : Setting → Option Nat := natBelow? Width.beyond64

def flag? : Setting → Option Bool
  | .flag b => some b
  | _ => none

/-- `null` is the absent value. -/
def nullable? (f : Setting → Option α) : Setting → Option (Option α)
  | .null => some none
  | s => (f s).map some

section Lookup

variable {α : Type} (find? : String → Option Setting) (name : String) (f : Setting → Option α)

def required : Option α := (find? name).bind f

def defaulted (default : α) : Option α :=
  match find? name with
  | some s => f s
  | none => some default

end Lookup

end Setting

namespace Config

open Setting

/-- The names of the settings in the order of their declaration. -/
def names : List String :=
  ["base_url", "client_id", "client_secret", "username", "password", "token_url", "timeout",
    "max_retries", "token_buffer_seconds", "rate_limit_calls", "rate_limit_period_seconds",
    "deadline_seconds", "retry_writes", "backoff_base_ms", "backoff_max_ms", "bulk_batch_size",
    "bulk_concurrency", "user_agent"]

/-- The configuration from settings by name. -/
def ofSettings? (find? : String → Option Setting) : Option Config := do
  let plain := make (← required find? "base_url" text?) (← required find? "client_id" text?)
    (← required find? "client_secret" text?)
  return { plain with
    username := ← defaulted find? "username" (nullable? text?) plain.username
    password := ← defaulted find? "password" (nullable? text?) plain.password
    tokenUrl := ← defaulted find? "token_url" (nullable? text?) plain.tokenUrl
    timeoutSeconds := ← defaulted find? "timeout" nat64? plain.timeoutSeconds
    maxRetries := ← defaulted find? "max_retries" nat32? plain.maxRetries
    tokenBufferSeconds := ← defaulted find? "token_buffer_seconds" nat64? plain.tokenBufferSeconds
    rateLimitCalls := ← defaulted find? "rate_limit_calls" nat32? plain.rateLimitCalls
    rateLimitPeriodSeconds :=
      ← defaulted find? "rate_limit_period_seconds" nat64? plain.rateLimitPeriodSeconds
    deadlineSeconds := ← defaulted find? "deadline_seconds" (nullable? nat64?) plain.deadlineSeconds
    retryWrites := ← defaulted find? "retry_writes" flag? plain.retryWrites
    backoffBaseMillis := ← defaulted find? "backoff_base_ms" nat64? plain.backoffBaseMillis
    backoffMaxMillis := ← defaulted find? "backoff_max_ms" nat64? plain.backoffMaxMillis
    bulkBatchSize := ← defaulted find? "bulk_batch_size" nat64? plain.bulkBatchSize
    bulkConcurrency := ← defaulted find? "bulk_concurrency" nat64? plain.bulkConcurrency
    userAgent := ← defaulted find? "user_agent" (nullable? text?) plain.userAgent }

def decoder : Json.Decoder Config := fun depth d => do
  let fs ← Json.Decode.fields names depth d
  ofSettings? fun name => (fs.find? name).map ofDocument

def ofJsonText? (s : String) : Option Config := Json.Decode.text? decoder s

def ofTomlText? (s : String) : Option Config := do
  let entries ← Toml.read? s
  ofSettings? fun name => (entries.find? (·.1 = name)).map fun e => ofToml e.2

end Config

end CatalogClient
