import CatalogClient.Fault
import CatalogClient.Json.Decode
import CatalogClient.Text.Record
import CatalogClient.Time.Calendar
/-!
Access tokens: the answer of the token endpoint, and the credential with its absolute expiry that is
made from it.
-/

namespace CatalogClient

open Json Json.Decode

structure TokenGrant where
  accessToken : String
  /-- The lifetime in seconds. -/
  expiresIn : Int
  tokenType : Option String
  refreshToken : Option String
  scope : Option String
  deriving DecidableEq, Repr

namespace TokenGrant

def decoder : Decoder TokenGrant := fun depth d => do
  let fs ← fields ["access_token", "expires_in", "token_type", "refresh_token", "scope"] depth d
  return {
    accessToken := ← fs.required "access_token" string
    expiresIn := ← fs.required "expires_in" int64
    tokenType := ← fs.defaulted "token_type" (option string) none
    refreshToken := ← fs.defaulted "refresh_token" (option string) none
    scope := ← fs.defaulted "scope" (option string) none }

def toJson (t : TokenGrant) : Json :=
  Json.ofMembers [
    ("access_token", .string t.accessToken),
    ("expires_in", .ofInt t.expiresIn),
    ("token_type", .ofOption .string t.tokenType),
    ("refresh_token", .ofOption .string t.refreshToken),
    ("scope", .ofOption .string t.scope)]

def describe (t : TokenGrant) : String :=
  Text.Record.render "TokenResponse" [
    ("access_token", Text.Record.secret),
    ("expires_in", String.ofList (Decimal.writeInt t.expiresIn)),
    ("token_type", Text.Record.option Text.Record.text t.tokenType)] .more

end TokenGrant

structure Credential where
  accessToken : String
  tokenType : String
  expiresAt : UtcTime
  refreshToken : Option String
  deriving DecidableEq, Repr

namespace Credential

/-- The credential that lives for the granted time from `issuedAt` on; a negative lifetime is
none. -/
def issued (t : TokenGrant) (issuedAt : UtcTime) : Except Fault Credential :=
  match issuedAt.addSeconds? (max t.expiresIn 0) with
  | none => .error .expiry
  | some expiresAt => .ok ⟨t.accessToken, t.tokenType.getD "Bearer", expiresAt, t.refreshToken⟩

/-- The credential has expired or expires within the buffer. A buffer that reaches back before the
calendar always does. -/
def needsRefresh (c : Credential) (now : UtcTime) (buffer : Span) : Bool :=
  match c.expiresAt.step? (-buffer.nanos) with
  | none => true
  | some refreshAt => refreshAt ≤ now

/-- Whole seconds to the expiry, negative after it. -/
def secondsLeft (c : Credential) (now : UtcTime) : Int := c.expiresAt.secondsSince now

def authorization (c : Credential) : String := "Bearer " ++ c.accessToken

def time : Decoder UtcTime := fun depth d => (string depth d).bind UtcTime.read?

def decoder : Decoder Credential := fun depth d => do
  let fs ← fields ["access_token", "token_type", "expires_at", "refresh_token"] depth d
  return {
    accessToken := ← fs.required "access_token" string
    tokenType := ← fs.required "token_type" string
    expiresAt := ← fs.required "expires_at" time
    refreshToken := ← fs.optional "refresh_token" string }

/-- An absent refresh token is not written. -/
def toJson (c : Credential) : Json :=
  Json.ofMembers (
    [("access_token", .string c.accessToken), ("token_type", .string c.tokenType),
      ("expires_at", .string c.expiresAt.render)] ++
    (c.refreshToken.map fun t => ("refresh_token", .string t)).toList)

def describe (c : Credential) : String :=
  Text.Record.render "Credential" [
    ("access_token", Text.Record.secret),
    ("token_type", Text.Record.text c.tokenType),
    ("expires_at", c.expiresAt.render),
    ("refresh_token", Text.Record.option (fun _ => Text.Record.secret) c.refreshToken)] .complete

end Credential

end CatalogClient
