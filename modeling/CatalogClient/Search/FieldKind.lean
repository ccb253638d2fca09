import CatalogClient.Search.Operator
/-!
The kinds of fields that a search clause may look at, and the operators each kind admits.
-/

namespace CatalogClient

inductive FieldKind
  | uuid
  | identifier
  | categories
  | enabled
  | completeness
  /-- Of a product model: how many of its variants are complete. -/
  | modelCompleteness
  | family
  | groups
  | date
  | parent
  | qualityScore
  | text
  | number
  | select
  | boolean
  | file
  /-- A clause given as it is: every operator, every value. -/
  | any
  deriving DecidableEq, Repr

namespace FieldKind

def all : List FieldKind :=
  [.uuid, .identifier, .categories, .enabled, .completeness, .modelCompleteness, .family, .groups,
    .date, .parent, .qualityScore, .text, .number, .select, .boolean, .file, .any]

def name : FieldKind → String
  | .uuid => "Uuid"
  | .identifier => "Identifier"
  | .categories => "Categories"
  | .enabled => "Enabled"
  | .completeness => "Completeness"
  | .modelCompleteness => "ModelCompleteness"
  | .family => "Family"
  | .groups => "Groups"
  | .date => "Date"
  | .parent => "Parent"
  | .qualityScore => "QualityScore"
  | .text => "Text"
  | .number => "Number"
  | .select => "Select"
  | .boolean => "Boolean"
  | .file => "File"
  | .any => "Any"

def label : FieldKind → String
  | .uuid => "uuid"
  | .identifier => "identifier"
  | .categories => "categories"
  | .enabled => "enabled"
  | .completeness => "completeness"
  | .modelCompleteness => "model completeness"
  | .family => "family"
  | .groups => "groups"
  | .date => "date"
  | .parent => "parent"
  | .qualityScore => "quality score"
  | .text => "text"
  | .number => "number"
  | .select => "select"
  | .boolean => "boolean"
  | .file => "file"
  | .any => "raw"

open Operator in
/-- The operators listed for a kind; the kind of raw clauses lists none. -/
def operators : FieldKind → List Operator
  | .uuid => [isIn, notIn]
  | .identifier =>
    [equal, notEqual, isIn, notIn, startsWith, contains, doesNotContain, empty, notEmpty]
  | .categories => [isIn, notIn, inOrUnclassified, inChildren, notInChildren, unclassified]
  | .enabled | .boolean => [equal, notEqual]
  | .completeness =>
    [lower, lowerOrEqual, equal, notEqual, greater, greaterOrEqual, greaterOnAllLocales,
      greaterOrEqualOnAllLocales, lowerOnAllLocales, lowerOrEqualOnAllLocales]
  | .modelCompleteness => [allComplete, allIncomplete, atLeastComplete, atLeastIncomplete]
  | .family | .groups | .select => [isIn, notIn, empty, notEmpty]
  | .date =>
    [equal, notEqual, lower, greater, between, notBetween, sinceLastDays, empty, notEmpty]
  | .parent => [equal, isIn, empty, notEmpty]
  | .qualityScore => [isIn]
  | .text => [equal, notEqual, isIn, notIn, startsWith, contains, doesNotContain, empty, notEmpty]
  | .file => [equal, notEqual, startsWith, contains, doesNotContain, empty, notEmpty]
  | .number =>
    [lower, lowerOrEqual, equal, notEqual, greaterOrEqual, greater, empty, notEmpty]
  | .any => []

def allows (k : FieldKind) (op : Operator) : Bool := k = .any || k.operators.contains op

end FieldKind

end CatalogClient
