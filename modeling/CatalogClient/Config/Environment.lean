import CatalogClient.Config
import CatalogClient.Width
/-!
The configuration from environment variables. An empty optional variable is as good as none.
-/

namespace CatalogClient

structure Environment where
  bindings : List (String × String)
  deriving DecidableEq, Repr

namespace Environment

def find? (e : Environment) (name : String) : Option String :=
  (e.bindings.find? (·.1 = name)).map (·.2)

def required (e : Environment) (name : String) : Except Failure String :=
  match e.find? name with
  | some value => .ok value
  | none => .error (.config ("missing required environment variable: " ++ name))

def optional? (e : Environment) (name : String) : Option String := (e.find? name).filter (· ≠ "")

/-- A number below `bound`, blanks around it passed over. -/
def number? (e : Environment) (bound : Nat) (name : String) : Except Failure (Option Nat) :=
  match e.optional? name with
  | none => .ok none
  | some value =>
    match Decimal.readBelow bound (Text.trim value) with
    | .ok n => .ok (some n)
    | .error fault => .error (.config ("invalid value for " ++ name ++ ": " ++ fault.message))

/-- Set to one of a few words; every other text is as good as none. -/
def flag (e : Environment) (name : String) : Bool :=
  match e.find? name with
  | some value => Text.lowerAscii value ∈ ["1", "true", "yes", "on"]
  | none => false

def config (e : Environment) : Except Failure Config := do
  let plain := Config.make (← e.required "PIM_BASE_URL") (← e.required "PIM_CLIENT_ID")
    (← e.required "PIM_CLIENT_SECRET")
  let c : Config := { plain with
    username := e.optional? "PIM_USERNAME"
    password := e.optional? "PIM_PASSWORD"
    tokenUrl := e.optional? "PIM_TOKEN_URL"
    timeoutSeconds := (← e.number? Width.beyond64 "PIM_TIMEOUT").getD plain.timeoutSeconds
    maxRetries := (← e.number? Width.beyond32 "PIM_MAX_RETRIES").getD plain.maxRetries
    tokenBufferSeconds :=
      (← e.number? Width.beyond64 "PIM_TOKEN_BUFFER_SECONDS").getD plain.tokenBufferSeconds
    rateLimitCalls := (← e.number? Width.beyond32 "PIM_RATE_LIMIT_CALLS").getD plain.rateLimitCalls
    rateLimitPeriodSeconds :=
      (← e.number? Width.beyond64 "PIM_RATE_LIMIT_PERIOD_SECONDS").getD plain.rateLimitPeriodSeconds
    deadlineSeconds := ← e.number? Width.beyond64 "PIM_DEADLINE_SECONDS"
    retryWrites := e.flag "PIM_RETRY_WRITES" }
  c.validate
  return c

end Environment

end CatalogClient
