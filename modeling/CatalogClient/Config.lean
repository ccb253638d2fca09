import CatalogClient.Credential.Grant
import CatalogClient.Failure
import CatalogClient.Url.Join
/-!
The settings of a client, their defaults, and the conditions they have to meet.
-/

namespace CatalogClient

structure Config where
  baseUrl : String
  clientId : String
  clientSecret : String
  username : Option String
  password : Option String
  /-- Where tokens are issued, if not below the root. -/
  tokenUrl : Option String
  timeoutSeconds : Nat
  maxRetries : Nat
  tokenBufferSeconds : Nat
  rateLimitCalls : Nat
  rateLimitPeriodSeconds : Nat
  /-- How long a whole call may take, if it does not say so itself. -/
  deadlineSeconds : Option Nat
  /-- Whether writes are sent again after ambiguous failures. -/
  retryWrites : Bool
  backoffBaseMillis : Nat
  backoffMaxMillis : Nat
  bulkBatchSize : Nat
  bulkConcurrency : Nat
  userAgent : Option String
  deriving DecidableEq, Repr

inductive ConfigFault
  | baseUrl (text : String) (fault : UrlFault)
  | scheme (scheme : String)
  | tokenUrl (text : String) (fault : UrlFault)
  | clientId
  | clientSecret
  | user
  | timeout
  | rateLimitCalls
  | rateLimitPeriod
  | bulk
  | backoff
  deriving DecidableEq, Repr

def ConfigFault.message : ConfigFault → String
  | .baseUrl text fault => "invalid base_url '" ++ text ++ "': " ++ fault.message
  | .scheme name => "base_url must use http or https, got '" ++ name ++ "'"
  | .tokenUrl text fault => "invalid token_url '" ++ text ++ "': " ++ fault.message
  | .clientId => "client_id must not be empty"
  | .clientSecret => "client_secret must not be empty"
  | .user => "username and password must be set together"
  | .timeout => "timeout must be greater than 0"
  | .rateLimitCalls => "rate_limit_calls must be greater than 0"
  | .rateLimitPeriod => "rate_limit_period_seconds must be greater than 0"
  | .bulk => "bulk_batch_size and bulk_concurrency must be greater than 0"
  | .backoff => "backoff_base_ms must not exceed backoff_max_ms"

namespace Config

/-- The settings with every option at its default. -/
def make (baseUrl clientId clientSecret : String) : Config where
  baseUrl := baseUrl
  clientId := clientId
  clientSecret := clientSecret
  username := none
  password := none
  tokenUrl := none
  timeoutSeconds := 30
  maxRetries := 3
  tokenBufferSeconds := 60
  rateLimitCalls := 20
  rateLimitPeriodSeconds := 60
  deadlineSeconds := none
  retryWrites := false
  backoffBaseMillis := 500
  backoffMaxMillis := 30000
  bulkBatchSize := 100
  bulkConcurrency := 4
  userAgent := none

/-- The first condition that the settings do not meet. -/
def check (c : Config) : Except ConfigFault Unit := do
  let base ← (Url.read c.baseUrl).mapError (.baseUrl c.baseUrl)
  if base.scheme ≠ "http" ∧ base.scheme ≠ "https" then throw (.scheme base.scheme)
  if let some text := c.tokenUrl then
    let _ ← (Url.read text).mapError (.tokenUrl text)
  if Text.trim c.clientId = "" then throw .clientId
  if c.clientSecret = "" then throw .clientSecret
  if c.username.isSome ≠ c.password.isSome then throw .user
  if c.timeoutSeconds = 0 then throw .timeout
  if c.rateLimitCalls = 0 then throw .rateLimitCalls
  if c.rateLimitPeriodSeconds = 0 then throw .rateLimitPeriod
  if c.bulkBatchSize = 0 ∨ c.bulkConcurrency = 0 then throw .bulk
  if c.backoffMaxMillis < c.backoffBaseMillis then throw .backoff

def validate (c : Config) : Except Failure Unit := c.check.mapError fun f => .config f.message

def base (c : Config) : Except Failure Url := (Url.read c.baseUrl).mapError .invalidUrl

def tokenPath : String := "/api/oauth/v1/token"

/-- Where tokens are issued: as it is given, or a fixed path below the root. -/
def tokenEndpoint (c : Config) : Except Failure Url :=
  match c.tokenUrl with
  | some text => (Url.read text).mapError .invalidUrl
  | none => do (← c.base).below tokenPath |>.mapError .invalidUrl

def timeout (c : Config) : Span := .ofSeconds c.timeoutSeconds

def tokenBuffer (c : Config) : Span := .ofSeconds c.tokenBufferSeconds

def rateLimitPeriod (c : Config) : Span := .ofSeconds c.rateLimitPeriodSeconds

def deadline (c : Config) : Option Span := c.deadlineSeconds.map .ofSeconds

/-- The grant the settings imply: that of a user, if there is one, or else of the client itself. -/
def grant (c : Config) : Grant :=
  match c.username, c.password with
  | some username, some password => .password username password
  | _, _ => .clientCredentials

def toJson (c : Config) : Json :=
  Json.ofMembers [
    ("base_url", .string c.baseUrl),
    ("client_id", .string c.clientId),
    ("client_secret", .string c.clientSecret),
    ("username", .ofOption .string c.username),
    ("password", .ofOption .string c.password),
    ("token_url", .ofOption .string c.tokenUrl),
    ("timeout", .ofNat c.timeoutSeconds),
    ("max_retries", .ofNat c.maxRetries),
    ("token_buffer_seconds", .ofNat c.tokenBufferSeconds),
    ("rate_limit_calls", .ofNat c.rateLimitCalls),
    ("rate_limit_period_seconds", .ofNat c.rateLimitPeriodSeconds),
    ("deadline_seconds", .ofOption .ofNat c.deadlineSeconds),
    ("retry_writes", .bool c.retryWrites),
    ("backoff_base_ms", .ofNat c.backoffBaseMillis),
    ("backoff_max_ms", .ofNat c.backoffMaxMillis),
    ("bulk_batch_size", .ofNat c.bulkBatchSize),
    ("bulk_concurrency", .ofNat c.bulkConcurrency),
    ("user_agent", .ofOption .string c.userAgent)]

open Text.Record in
def describe (c : Config) : String :=
  render "ClientConfig" [
    ("base_url", text c.baseUrl),
    ("client_id", text c.clientId),
    ("client_secret", secret),
    ("username", option text c.username),
    ("password", option (fun _ => secret) c.password),
    ("token_url", option text c.tokenUrl),
    ("timeout", number c.timeoutSeconds),
    ("max_retries", number c.maxRetries),
    ("token_buffer_seconds", number c.tokenBufferSeconds),
    ("rate_limit_calls", number c.rateLimitCalls),
    ("rate_limit_period_seconds", number c.rateLimitPeriodSeconds),
    ("deadline_seconds", option number c.deadlineSeconds),
    ("retry_writes", flag c.retryWrites)] .more

end Config

end CatalogClient
