import CatalogClient.Fault
import CatalogClient.Json.Decode
import CatalogClient.Request
/-!
Pages of a list, and the request for the page behind one. Links lead to the next page where the
service gives any; otherwise the number of the page is counted on as long as pages are full.
-/

namespace CatalogClient

structure Envelope (α : Type) where
  /-- Relations and the URLs they lead to, in the order of the relations. -/
  links : List (String × String)
  currentPage : Option Nat
  itemsCount : Option Nat
  items : List α
  deriving DecidableEq, Repr

inductive Cursor
  | link (url : String)
  | page (number limit : Nat)
  deriving DecidableEq, Repr

structure Page (α : Type) where
  items : List α
  currentPage : Option Nat
  links : List (String × String)
  itemsCount : Option Nat
  /-- The request that brought this page. -/
  request : Request
  deriving DecidableEq, Repr

open Json Json.Decode

namespace Envelope

def linkDecoder : Decoder String := fun depth d => do
  let fs ← fields ["href"] depth d
  fs.required "href" string

def embeddedDecoder (f : Decoder α) : Decoder (List α) := fun depth d => do
  let fs ← fields ["items"] depth d
  fs.required "items" (list f)

def decoder (f : Decoder α) : Decoder (Envelope α) := fun depth d => do
  let fs ← fields ["_links", "current_page", "items_count", "_embedded"] depth d
  return {
    links := ← fs.defaulted "_links" (members linkDecoder) []
    currentPage := ← fs.defaulted "current_page" (option nat32) none
    itemsCount := ← fs.defaulted "items_count" (option nat64) none
    items := ← fs.required "_embedded" (embeddedDecoder f) }

/-- Absent values and an empty set of links are not written. -/
def toJson (e : Envelope Json) : Json :=
  Json.ofMembers (
    (if e.links = [] then [] else
      [("_links", Json.ofMembers (e.links.map fun (rel, url) => (rel, .object [("href", .string url)])))]) ++
    (e.currentPage.map fun n => ("current_page", Json.ofNat n)).toList ++
    (e.itemsCount.map fun n => ("items_count", Json.ofNat n)).toList ++
    [("_embedded", .object [("items", .array e.items)])])

end Envelope

namespace Page

def defaultLimit : Nat := 100

def ofEnvelope (e : Envelope α) (request : Request) : Page α :=
  ⟨e.items, e.currentPage, e.links, e.itemsCount, request⟩

def link? (p : Page α) (rel : String) : Option String := (p.links.find? (·.1 = rel)).map (·.2)

/-- A number of 32 bits in the query of the request. -/
def queryNumber? (p : Page α) (key : String) : Option Nat :=
  (p.request.queryValue? key).bind fun v => (Decimal.readBelow Width.beyond32 v).toOption

def limit (p : Page α) : Nat := (p.queryNumber? "limit").getD defaultLimit

def number (p : Page α) : Nat := (p.currentPage.or (p.queryNumber? "page")).getD 1

/-- The page behind this one. Where there are links only `next` counts; else a page with as many
items as its limit, and at least one, has a page behind it. -/
def nextCursor (p : Page α) : Except Fault (Option Cursor) :=
  if p.links ≠ [] then .ok ((p.link? "next").map .link)
  else if p.items.isEmpty ∨ p.items.length < p.limit then .ok none
  else if p.number + 1 < Width.beyond32 then .ok (some (.page (p.number + 1) p.limit))
  else .error .pageNumber

def hasNext (p : Page α) : Except Fault Bool := return (← p.nextCursor).isSome

/-- The request for the page a cursor points at. -/
def requestAt (p : Page α) : Cursor → Request
  | .link url => p.request.follow url
  | .page number limit =>
    (p.request.withQueryValue "page" (String.ofList (Decimal.write number))).withQueryValue "limit"
      (String.ofList (Decimal.write limit))

def nextRequest (p : Page α) : Except Fault (Option Request) :=
  return (← p.nextCursor).map p.requestAt

def map (f : α → β) (p : Page α) : Page β :=
  ⟨p.items.map f, p.currentPage, p.links, p.itemsCount, p.request⟩

end Page

end CatalogClient
