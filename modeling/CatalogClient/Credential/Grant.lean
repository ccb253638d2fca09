import CatalogClient.Json.Value
import CatalogClient.Text.Record
/-!
What a client presents to the token endpoint for an access token.
-/

namespace CatalogClient

inductive Grant
  | clientCredentials
  | password (username password : String)
  | refreshToken (token : String)
  deriving DecidableEq, Repr

namespace Grant

def type : Grant → String
  | .clientCredentials => "client_credentials"
  | .password .. => "password"
  | .refreshToken _ => "refresh_token"

def toJson (g : Grant) : Json :=
  Json.ofMembers (("grant_type", .string g.type) :: match g with
    | .clientCredentials => []
    | .password user word => [("username", .string user), ("password", .string word)]
    | .refreshToken token => [("refresh_token", .string token)])

def describe : Grant → String
  | .password user _ =>
    Text.Record.render "Password"
      [("username", Text.Record.text user), ("password", Text.Record.secret)] .complete
  | g => g.type

end Grant

end CatalogClient
