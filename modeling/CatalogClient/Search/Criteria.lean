import CatalogClient.Search.Clause
/-!
The clauses of a search, grouped by their fields. Fields stand in the order of their first clauses
and the clauses of a field in the order in which they were pushed.
-/

namespace CatalogClient

structure Criteria where
  groups : List (String × List Clause)
  deriving DecidableEq, Repr

namespace Criteria

def empty : Criteria := ⟨[]⟩

def isEmpty (s : Criteria) : Bool := s.groups.isEmpty

def pushGroup (c : Clause) : List (String × List Clause) → List (String × List Clause)
  | [] => [(c.field, [c])]
  | (f, cs) :: gs => if f = c.field then (f, cs ++ [c]) :: gs else (f, cs) :: pushGroup c gs

def push (s : Criteria) (c : Clause) : Criteria := ⟨pushGroup c s.groups⟩

def ofList (cs : List Clause) : Criteria := cs.foldl push empty

/-- The clauses of one field. -/
def get (s : Criteria) (field : String) : List Clause :=
  ((s.groups.find? (·.1 = field)).map (·.2)).getD []

def fields (s : Criteria) : List String := s.groups.map (·.1)

def clauses (s : Criteria) : List Clause := s.groups.flatMap (·.2)

def validate (s : Criteria) : Except Failure Unit := s.clauses.forM Clause.validate

def toJson (s : Criteria) : Json :=
  .object (s.groups.map fun (f, cs) => (f, .array (cs.map Clause.toJson)))

def render (s : Criteria) : String := s.toJson.render

end Criteria

end CatalogClient
