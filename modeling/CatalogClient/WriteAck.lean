import CatalogClient.Response
/-!
The acknowledgement of a single write.
-/

namespace CatalogClient

structure WriteAck where
  status : Nat
  /-- Where the resource is found that the write created or changed. -/
  location : Option String
  deriving DecidableEq, Repr

namespace WriteAck

open Json Json.Decode

def ofResponse (r : Response) : WriteAck := ⟨r.status, r.location?⟩

def isCreated (a : WriteAck) : Bool := a.status = 201

def decoder : Decoder WriteAck := fun depth d => do
  let fs ← fields ["status", "location"] depth d
  return ⟨← fs.required "status" nat16, ← fs.defaulted "location" (option string) none⟩

/-- An absent location is not written. -/
def toJson (a : WriteAck) : Json :=
  Json.ofMembers ([("status", Json.ofNat a.status)] ++
    (a.location.map fun l => ("location", .string l)).toList)

end WriteAck

end CatalogClient
