import CatalogClient.Bulk.Item
import CatalogClient.Search.Query
/-!
The resources of a catalogue: their paths, and the requests that read and change them.
-/

namespace CatalogClient.Resource

def productsByUuid : String := "/api/rest/v1/products-uuid"

def products : String := "/api/rest/v1/products"

def productModels : String := "/api/rest/v1/product-models"

def families : String := "/api/rest/v1/families"

def categories : String := "/api/rest/v1/categories"

def mediaFiles : String := "/api/rest/v1/media-files"

def categoryMediaFiles : String := "/api/rest/v1/category-media-files"

/-- The path of the resource with a key: the key is one segment, whatever it holds. -/
def itemPath (collection key : String) : String := collection ++ "/" ++ Url.escapeSegment key

/-- The path of a resource whose key is itself a path: each part of it is a segment. -/
def nestedPath (collection key : String) : String :=
  collection ++ "/" ++ "/".intercalate ((Text.split '/' key).map Url.escapeSegment)

def read (collection key : String) : Request := .get (itemPath collection key)

def readNested (collection key : String) : Request := .get (nestedPath collection key)

/-- The first page of the resources that a query finds. -/
def list (collection : String) (q : Query) : Except Failure Request := q.apply (.get collection)

/-- The first page of the products that a query finds, the query in the body. The call only reads,
so it may be sent again. -/
def search (q : Query) : Except Failure Request := do
  return ((Request.post (productsByUuid ++ "/search")).withJson (← q.compileBody)).withRetryWrites true

def create (collection : String) (payload : Json) : Request :=
  (Request.post collection).withJson payload

def update (collection key : String) (payload : Json) : Request :=
  (Request.patch (itemPath collection key)).withJson payload

def remove (collection key : String) : Request := .delete (itemPath collection key)

/-- The content of a file, in whatever format it has. -/
def download (collection key : String) : Request :=
  (Request.get (nestedPath collection key ++ "/download")).withHeader "Accept" "*/*"

/-- The text that a payload has in the field for its key. -/
def keyOf? (keyField : String) (payload : Json) : Option String :=
  (payload.get? keyField).bind Json.string?

/-- The line of a collection for a payload: the payload with its key in it. What is no object is made
a member of one. -/
def keyedLine (keyField key : String) (payload : Json) : Json :=
  let members := match payload with
    | .object members => members
    | other => [("value", other)]
  .object (Json.insertMember keyField (.string key) members)

def keylessMessage (keyField : String) (index : Nat) : String :=
  "bulk item " ++ String.ofList (Decimal.write index) ++ " has no string '" ++ keyField ++ "'"

/-- The write for the payload at a place: a change of the resource under its key. -/
def keyed (collection keyField : String) (payload : Json) (index : Nat) : Except Failure BulkItem :=
  match keyOf? keyField payload with
  | some key => .ok ⟨key, update collection key (keyedLine keyField key payload)⟩
  | none => .error (.invalidField keyField (keylessMessage keyField index))

/-- A write for each payload. The first one without a text under the key is refused. -/
def upserts (collection keyField : String) (payloads : List Json) : Except Failure (List BulkItem) :=
  payloads.zipIdx.mapM fun (payload, index) => keyed collection keyField payload index

/-- What a media file belongs to: the value of an attribute. -/
inductive MediaOwner
  | product (identifier : String)
  | productModel (code : String)
  deriving DecidableEq, Repr

structure Media where
  filename : String
  contentType : Option String
  data : List UInt8
  deriving DecidableEq, Repr

/-- A file with the text that says what it belongs to. -/
def upload (path owner : String) (description : Json) (m : Media) : Request :=
  (Request.post path).withBody
    (.form [.text owner description.render, .file "file" m.filename m.contentType m.data])

def uploadMedia (owner : MediaOwner) (attributeCode : String) (scope locale : Option String)
    (m : Media) :
    Request :=
  let (part, key) := match owner with
    | .product identifier => ("product", ("identifier", identifier))
    | .productModel code => ("product_model", ("code", code))
  upload mediaFiles part (Json.ofMembers [(key.1, .string key.2), ("attribute", .string attributeCode),
    ("scope", .ofOption .string scope), ("locale", .ofOption .string locale)]) m

def uploadCategoryMedia (category attributeCode : String) (channel locale : Option String)
    (m : Media) :
    Request :=
  upload categoryMediaFiles "category" (Json.ofMembers [("code", .string category),
    ("attribute_code", .string attributeCode), ("channel", .ofOption .string channel),
    ("locale", .ofOption .string locale)]) m

end CatalogClient.Resource
