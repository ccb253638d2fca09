import CatalogClient.Client
/-!
Walks through the items of a list. A page is asked for only when an item is wanted and those of the
page before have been handed out.
-/

namespace CatalogClient

inductive Walk (α : Type)
  | before (r : Request)
  /-- Within a page: its items still to come, and the request for the page behind it. -/
  | within (items : List α) (next : Option Request)
  | over
  deriving DecidableEq, Repr

/-- What a walk does when an item is wanted. -/
inductive Stride (α : Type)
  | hands (item : α) (rest : Walk α)
  | asks (r : Request)
  | ends
  deriving DecidableEq, Repr

namespace Walk

def stride : Walk α → Stride α
  | .before r => .asks r
  | .within (a :: items) next => .hands a (.within items next)
  | .within [] (some r) => .asks r
  | .within [] none => .ends
  | .over => .ends

def ofPage (p : Page α) : Except Fault (Walk α) := return .within p.items (← p.nextRequest)

variable {σ : Type} (k : Client) (p : Peer σ) (f : Json.Decoder α)

/-- The next item or the failure that ends the walk, and the walk behind it. The number bounds the
pages without items. -/
def pull : Nat → Walk α → Effect σ (Option (Except Failure α) × Walk α)
  | 0, w => return (none, w)
  | fuel + 1, w =>
    match w.stride with
    | .ends => return (none, .over)
    | .hands a rest => return (some (.ok a), rest)
    | .asks r => do
      match ← (k.page p f r).run with
      | .error failure => return (some (.error failure), .over)
      | .ok page => pull fuel (← Effect.ofFault (ofPage page))

/-- A number of pages without items that no list comes near. -/
def plenty : Nat := 1000000000000000000

/-- At most so many items of a walk; a failure is the last. -/
def take : Nat → Walk α → Effect σ (List (Except Failure α))
  | 0, _ => return []
  | n + 1, w => do
    match ← pull k p f plenty w with
    | (none, _) => return []
    | (some a, rest) => return a :: (← take n rest)

end Walk

end CatalogClient
