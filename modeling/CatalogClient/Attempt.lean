import CatalogClient.Failure
import CatalogClient.Request
import CatalogClient.Url.Join
/-!
Single messages to the service. The messages of one call differ in nothing but the credential they
present.
-/

namespace CatalogClient

structure Attempt where
  method : Method
  url : Url
  headers : List (String × String)
  body : Body
  timeout : Span
  deriving DecidableEq, Repr

namespace Request

/-- The URL of a call: its own, where the path is a whole URL, or that of the path below the base;
the pairs of the query are appended to it. -/
def url (base : Url) (r : Request) : Except Failure Url := do
  let url ← (if r.isAbsolute then Url.read r.path else base.below r.path).mapError .invalidUrl
  return if r.query = [] then url else url.withPairs r.query

/-- The header that presents a credential stands before those of the call. -/
def attempt (r : Request) (url : Url) (authorization : String) (timeout : Span) : Attempt :=
  ⟨r.method, url, ("Authorization", authorization) :: r.headers, r.body, timeout⟩

end Request

end CatalogClient
