import CatalogClient.Json.Writer
import CatalogClient.Method
import CatalogClient.Time.Span
import CatalogClient.Url.Percent
/-!
Descriptions of logical calls. A description is what every attempt of the call is made from.
-/

namespace CatalogClient

structure Part where
  name : String
  filename : Option String
  contentType : Option String
  data : List UInt8
  deriving DecidableEq, Repr

namespace Part

def text (name value : String) : Part := ⟨name, none, none, Text.Utf8.encode value⟩

def file (name filename : String) (contentType : Option String) (data : List UInt8) : Part :=
  ⟨name, some filename, contentType, data⟩

end Part

inductive Body
  | empty
  | json (value : Json)
  /-- A collection: one JSON value a line. -/
  | lines (values : List Json)
  | form (parts : List Part)
  | raw (contentType : String) (data : List UInt8)
  deriving DecidableEq, Repr

namespace Body

def isEmpty : Body → Bool
  | .empty => true
  | _ => false

def isForm : Body → Bool
  | .form _ => true
  | _ => false

/-- The text of a collection: the compact texts of its values, separated by line feeds. -/
def linesText (values : List Json) : List Char :=
  List.intercalate ['\n'] (values.map Json.write)

end Body

structure Request where
  method : Method
  path : String
  query : List (String × String)
  headers : List (String × String)
  body : Body
  /-- Whether writes may be sent again after an ambiguous failure; without it the policy decides. -/
  retryWrites : Option Bool
  deadline : Option Span
  deriving DecidableEq, Repr

namespace Request

def make (method : Method) (path : String) : Request :=
  ⟨method, path, [], [], .empty, none, none⟩

def get (path : String) : Request := make .get path

def post (path : String) : Request := make .post path

def patch (path : String) : Request := make .patch path

def delete (path : String) : Request := make .delete path

def withPair (r : Request) (key value : String) : Request :=
  { r with query := r.query ++ [(key, value)] }

def withPairs (r : Request) (pairs : List (String × String)) : Request :=
  { r with query := r.query ++ pairs }

/-- Replaces the value of the first pair with the key, or appends a pair. -/
def setPair (key value : String) : List (String × String) → List (String × String)
  | [] => [(key, value)]
  | (k, v) :: ps => if k = key then (k, value) :: ps else (k, v) :: setPair key value ps

def withQueryValue (r : Request) (key value : String) : Request :=
  { r with query := setPair key value r.query }

def queryValue? (r : Request) (key : String) : Option String :=
  (r.query.find? (·.1 = key)).map (·.2)

def withHeader (r : Request) (name value : String) : Request :=
  { r with headers := r.headers ++ [(name, value)] }

def withBody (r : Request) (body : Body) : Request := { r with body := body }

def withJson (r : Request) (value : Json) : Request := r.withBody (.json value)

def withRetryWrites (r : Request) (allowed : Bool) : Request :=
  { r with retryWrites := some allowed }

def withDeadline (r : Request) (deadline : Span) : Request :=
  { r with deadline := some deadline }

def isAbsolute (r : Request) : Bool :=
  Text.startsWith "http://" r.path || Text.startsWith "https://" r.path

/-- The keys of a body that say where a page begins. -/
def positionKeys : List String := ["page", "search_after"]

/-- The keys that the query of a link names. -/
def linkedKeys (link : String) : List String :=
  match Text.cut? '?' link.toList with
  | none => []
  | some (_, query) => (Url.Form.decodePairs query).map (·.1)

/-- The body for the page a link leads to: the link takes the place of the position in the body
and of every key that its query names. -/
def bodyBehind (link : String) : Body → Body
  | .json (.object ms) =>
    .json (.object (ms.filter fun (k, _) =>
      ! positionKeys.contains k && ! (linkedKeys link).contains k))
  | b => b

/-- The same call against a link, which carries its own query. -/
def follow (r : Request) (link : String) : Request :=
  { r with path := link, query := [], body := bodyBehind link r.body }

end Request

end CatalogClient
