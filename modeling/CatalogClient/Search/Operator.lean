import CatalogClient.WireToken
/-!
The comparison operators of search clauses, and the shape of the value each of them takes.
-/

namespace CatalogClient

inductive Operator
  | equal
  | notEqual
  | lower
  | lowerOrEqual
  | greater
  | greaterOrEqual
  | between
  | notBetween
  | isIn
  | notIn
  | inOrUnclassified
  | inChildren
  | notInChildren
  | unclassified
  | empty
  | notEmpty
  | contains
  | doesNotContain
  | startsWith
  | sinceLastDays
  | greaterOnAllLocales
  | greaterOrEqualOnAllLocales
  | lowerOnAllLocales
  | lowerOrEqualOnAllLocales
  | allComplete
  | allIncomplete
  | atLeastComplete
  | atLeastIncomplete
  deriving DecidableEq, Repr

inductive ValueShape
  /-- Nothing. -/
  | absent
  | scalar
  | list
  /-- A list of two bounds. -/
  | range
  deriving DecidableEq, Repr

namespace Operator

def token : Operator → String
  | .equal => "="
  | .notEqual => "!="
  | .lower => "<"
  | .lowerOrEqual => "<="
  | .greater => ">"
  | .greaterOrEqual => ">="
  | .between => "BETWEEN"
  | .notBetween => "NOT BETWEEN"
  | .isIn => "IN"
  | .notIn => "NOT IN"
  | .inOrUnclassified => "IN OR UNCLASSIFIED"
  | .inChildren => "IN CHILDREN"
  | .notInChildren => "NOT IN CHILDREN"
  | .unclassified => "UNCLASSIFIED"
  | .empty => "EMPTY"
  | .notEmpty => "NOT EMPTY"
  | .contains => "CONTAINS"
  | .doesNotContain => "DOES NOT CONTAIN"
  | .startsWith => "STARTS WITH"
  | .sinceLastDays => "SINCE LAST N DAYS"
  | .greaterOnAllLocales => "GREATER THAN ON ALL LOCALES"
  | .greaterOrEqualOnAllLocales => "GREATER OR EQUALS THAN ON ALL LOCALES"
  | .lowerOnAllLocales => "LOWER THAN ON ALL LOCALES"
  | .lowerOrEqualOnAllLocales => "LOWER OR EQUALS THAN ON ALL LOCALES"
  | .allComplete => "ALL COMPLETE"
  | .allIncomplete => "ALL INCOMPLETE"
  | .atLeastComplete => "AT LEAST COMPLETE"
  | .atLeastIncomplete => "AT LEAST INCOMPLETE"

def all : List Operator :=
  [.equal, .notEqual, .lower, .lowerOrEqual, .greater, .greaterOrEqual, .between, .notBetween,
    .isIn, .notIn, .inOrUnclassified, .inChildren, .notInChildren, .unclassified, .empty,
    .notEmpty, .contains, .doesNotContain, .startsWith, .sinceLastDays,
    .greaterOnAllLocales, .greaterOrEqualOnAllLocales, .lowerOnAllLocales,
    .lowerOrEqualOnAllLocales, .allComplete, .allIncomplete, .atLeastComplete,
    .atLeastIncomplete]

theorem mem_all (op : Operator) : op ∈ all := by cases op <;> decide

instance : WireToken Operator := ⟨"Operator", all, token, mem_all⟩

def shape : Operator → ValueShape
  | .empty | .notEmpty | .unclassified | .allComplete | .allIncomplete | .atLeastComplete
  | .atLeastIncomplete => .absent
  | .isIn | .notIn | .inOrUnclassified | .inChildren | .notInChildren => .list
  | .between | .notBetween => .range
  | _ => .scalar

def takesValue (op : Operator) : Bool := op.shape != .absent

end Operator

end CatalogClient
