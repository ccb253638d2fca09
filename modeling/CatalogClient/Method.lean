import CatalogClient.Json.Decode
import CatalogClient.WireToken
/-!
The methods of requests.
-/

namespace CatalogClient

inductive Method
  | get
  | post
  | put
  | patch
  | delete
  deriving DecidableEq, Repr

namespace Method

def token : Method → String
  | .get => "GET"
  | .post => "POST"
  | .put => "PUT"
  | .patch => "PATCH"
  | .delete => "DELETE"

def all : List Method := [.get, .post, .put, .patch, .delete]

theorem mem_all (m : Method) : m ∈ all := by cases m <;> decide

instance : WireToken Method := ⟨"HttpMethod", all, token, mem_all⟩

def name : Method → String
  | .get => "Get"
  | .post => "Post"
  | .put => "Put"
  | .patch => "Patch"
  | .delete => "Delete"

def decoder : Json.Decoder Method := Json.Decode.named all name

/-- Sending the request again has no effect beyond the first. -/
def isIdempotent : Method → Bool
  | .get | .put | .delete => true
  | .post | .patch => false

end Method

end CatalogClient
