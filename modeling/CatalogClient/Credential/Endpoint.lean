import CatalogClient.Attempt
import CatalogClient.Config
import CatalogClient.Credential
import CatalogClient.RemoteError
import CatalogClient.Text.Base64
/-!
The token endpoint: the attempt that asks it for a token, and what its answer means.
-/

namespace CatalogClient

structure TokenEndpoint where
  url : Url
  /-- The value of the header that names the client. -/
  authorization : String
  timeout : Span
  deriving DecidableEq, Repr

namespace TokenEndpoint

def ofConfig (c : Config) : Except Failure TokenEndpoint := do
  let secret := Text.Utf8.encode (c.clientId ++ ":" ++ c.clientSecret)
  return ⟨← c.tokenEndpoint, "Basic " ++ String.ofList (Text.Base64.encode secret), c.timeout⟩

def attempt (e : TokenEndpoint) (g : Grant) : Attempt :=
  ⟨.post, e.url, [("Authorization", e.authorization)], .json g.toJson, e.timeout⟩

def description? (body : List UInt8) : Option String := do
  (← (← Json.Decode.bytes? Json.Decode.json body).get? "error_description").string?

def refusal (r : Response) : Failure :=
  let message := ((RemoteError.ofBody r.body).message.or (description? r.body)).getD
    ("token endpoint returned status " ++ String.ofList (Decimal.write r.status))
  match r.status with
  | 400 | 401 | 403 | 422 => .authentication (some r.status) message
  | 429 => .rateLimited r.retryAfter? message
  | _ => .api r.status message

def read (r : Response) : Except Failure TokenGrant :=
  if r.isSuccess then
    (r.decode TokenGrant.decoder).mapError fun f =>
      .authentication (some r.status) ("malformed token response: " ++ f.message)
  else .error (refusal r)

end TokenEndpoint

end CatalogClient
