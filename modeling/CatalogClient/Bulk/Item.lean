import CatalogClient.Failure
import CatalogClient.Request
/-!
The writes of a bulk operation and their results, one for each write. A status of zero stands for
no answer.
-/

namespace CatalogClient

structure BulkItem where
  /-- The key that the result carries. -/
  identifier : String
  request : Request
  deriving DecidableEq, Repr

/-- The line of a collection that stands for the write: the value of its JSON body. -/
def BulkItem.line? (i : BulkItem) : Option Json :=
  match i.request.body with
  | .json value => some value
  | _ => none

structure BulkResult where
  identifier : String
  status : Nat
  message : Option String
  deriving DecidableEq, Repr

namespace BulkResult

def ofFailure (identifier : String) (f : Failure) : BulkResult :=
  ⟨identifier, f.status?.getD 0, some f.message⟩

def isSuccess (r : BulkResult) : Bool := 200 ≤ r.status && r.status < 300

open Json.Decode

def decoder : Json.Decoder BulkResult := fun depth d => do
  let fs ← fields ["identifier", "status_code", "message"] depth d
  return ⟨← fs.required "identifier" string, ← fs.required "status_code" nat16,
    ← fs.defaulted "message" (option string) none⟩

/-- An absent message is not written. -/
def toJson (r : BulkResult) : Json :=
  Json.ofMembers (
    [("identifier", .string r.identifier), ("status_code", Json.ofNat r.status)] ++
    (r.message.map fun m => ("message", .string m)).toList)

end BulkResult

end CatalogClient
