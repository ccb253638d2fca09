import CatalogClient.Request
import CatalogClient.Search.Criteria
/-!
Searches: criteria and options. A search becomes the parameters of a query or the object of a
body; both hold the criteria as one text.
-/

namespace CatalogClient

/-- The code of an attribute, with the locale and channel of the value meant. -/
structure AttributeRef where
  code : String
  locale : Option String
  scope : Option String
  deriving DecidableEq, Repr

structure Query where
  criteria : Criteria
  /-- Fields with operator texts that name no operator. -/
  unknown : List (String × String)
  searchLocale : Option String
  searchScope : Option String
  attributes : List String
  locales : List String
  scope : Option String
  page : Option Nat
  limit : Option Nat
  count : Option Bool
  deriving DecidableEq, Repr

namespace Query

def empty : Query := ⟨.empty, [], none, none, [], [], none, none, none, none⟩

def push (q : Query) (c : Clause) : Query := { q with criteria := q.criteria.push c }

def property (q : Query) (field : String) (kind : FieldKind) (op : Operator) (value : Json) :
    Query :=
  q.push (.make field kind .property op value)

def onAttribute (q : Query) (a : AttributeRef) (kind : FieldKind) (op : Operator) (value : Json) :
    Query :=
  q.push { Clause.make a.code kind .attributeValue op value with
    context := ⟨a.locale, a.scope, none⟩ }

def strings (values : List String) : Json := .array (values.map .string)

def uuid (q : Query) (op : Operator) (values : List String) : Query :=
  q.property "uuid" .uuid op (strings values)

def identifier (q : Query) (op : Operator) (value : Json) : Query :=
  q.property "identifier" .identifier op value

def categories (q : Query) (op : Operator) (codes : List String) : Query :=
  q.property "categories" .categories op (strings codes)

def enabled (q : Query) (op : Operator) (value : Bool) : Query :=
  q.property "enabled" .enabled op (.bool value)

/-- Completeness on one channel, in all of its locales. -/
def completeness (q : Query) (op : Operator) (percent : Nat) (scope : String) : Query :=
  q.push { Clause.make "completeness" .completeness .property op (Json.ofNat percent) with
    context := ⟨none, some scope, none⟩ }

def completenessIn (q : Query) (op : Operator) (percent : Nat) (scope : String)
    (locales : List String) : Query :=
  q.push { Clause.make "completeness" .completeness .property op (Json.ofNat percent) with
    context := ⟨none, some scope, some locales⟩ }

def modelCompleteness (q : Query) (op : Operator) (context : Context) : Query :=
  q.push { Clause.make "completeness" .modelCompleteness .property op .null with
    context := context }

def family (q : Query) (op : Operator) (codes : List String) : Query :=
  q.property "family" .family op (strings codes)

def groups (q : Query) (op : Operator) (codes : List String) : Query :=
  q.property "groups" .groups op (strings codes)

def created (q : Query) (op : Operator) (value : Json) : Query :=
  q.property "created" .date op value

def updated (q : Query) (op : Operator) (value : Json) : Query :=
  q.property "updated" .date op value

def parent (q : Query) (op : Operator) (value : Json) : Query :=
  q.property "parent" .parent op value

def qualityScore (q : Query) (op : Operator) (scores : List String) (scope locale : String) :
    Query :=
  q.push { Clause.make "quality_score" .qualityScore .property op (strings scores) with
    context := ⟨some locale, some scope, none⟩ }

def attributeText (q : Query) (a : AttributeRef) (op : Operator) (value : Json) : Query :=
  q.onAttribute a .text op value

def attributeNumber (q : Query) (a : AttributeRef) (op : Operator) (value : Json) : Query :=
  q.onAttribute a .number op value

def attributeSelect (q : Query) (a : AttributeRef) (op : Operator) (options : List String) :
    Query :=
  q.onAttribute a .select op (strings options)

def attributeBoolean (q : Query) (a : AttributeRef) (op : Operator) (value : Bool) : Query :=
  q.onAttribute a .boolean op (.bool value)

def attributeDate (q : Query) (a : AttributeRef) (op : Operator) (value : Json) : Query :=
  q.onAttribute a .date op value

def attributeFile (q : Query) (a : AttributeRef) (op : Operator) (filename : String) : Query :=
  q.onAttribute a .file op (.string filename)

/-- Whether an attribute, of whatever kind, has a value. -/
def attributeEmpty (q : Query) (a : AttributeRef) (isEmpty : Bool) : Query :=
  q.onAttribute a .text (if isEmpty then .empty else .notEmpty) .null

/-- A clause given as it is, save that its operator has to be known. -/
def raw (q : Query) (field operator : String) (value : Option Json) (context : Context) : Query :=
  match WireToken.parse? (α := Operator) operator with
  | some op => q.push ⟨field, .any, .raw, op, value, context⟩
  | none => { q with unknown := q.unknown ++ [(field, operator)] }

def withSearchLocale (q : Query) (locale : String) : Query := { q with searchLocale := some locale }

def withSearchScope (q : Query) (scope : String) : Query := { q with searchScope := some scope }

def withAttributes (q : Query) (codes : List String) : Query := { q with attributes := codes }

def withLocales (q : Query) (codes : List String) : Query := { q with locales := codes }

def withScope (q : Query) (scope : String) : Query := { q with scope := some scope }

def withPage (q : Query) (number : Nat) : Query := { q with page := some number }

def withLimit (q : Query) (limit : Nat) : Query := { q with limit := some limit }

/-- Whether pages tell how many items there are. -/
def withCount (q : Query) (counted : Bool) : Query := { q with count := some counted }

def enabledProducts : Query := empty.enabled .equal true

def inCategories (codes : List String) : Query := empty.categories .isIn codes

def withFamily (codes : List String) : Query := empty.family .isIn codes

def recentlyUpdated (days : Nat) : Query := empty.updated .sinceLastDays (Json.ofNat days)

/-- Products less complete than the threshold on a channel. -/
def incomplete (scope : String) (threshold : Nat) : Query :=
  empty.completeness .lower threshold scope

/-- The criteria, if every operator is known and every clause is valid. -/
def checked (q : Query) : Except Failure Criteria :=
  match q.unknown with
  | (field, operator) :: _ =>
    .error (.invalidField field ("unknown search operator '" ++ operator ++ "'"))
  | [] => do
    q.criteria.validate
    return q.criteria

def options (q : Query) : List (String × Json) :=
  (q.searchLocale.map fun s => ("search_locale", .string s)).toList ++
  (q.searchScope.map fun s => ("search_scope", .string s)).toList ++
  (if q.attributes = [] then [] else [("attributes", strings q.attributes)]) ++
  (if q.locales = [] then [] else [("locales", strings q.locales)]) ++
  (q.scope.map fun s => ("scope", .string s)).toList ++
  (q.page.map fun n => ("page", Json.ofNat n)).toList ++
  (q.limit.map fun n => ("limit", Json.ofNat n)).toList ++
  (q.count.map fun b => ("with_count", .bool b)).toList

/-- An option as the text of a parameter: strings as they are, lists joined by commas. -/
def optionText : Json → String
  | .string s => s
  | .array xs => ",".intercalate (xs.filterMap Json.string?)
  | j => j.render

/-- The parameters of the search: the criteria, if there are any, before the options. -/
def compile (q : Query) : Except Failure (List (String × String)) := do
  let c ← q.checked
  return (if c.isEmpty then [] else [("search", c.render)]) ++
    q.options.map fun (k, v) => (k, optionText v)

/-- The search as the object of a body. -/
def compileBody (q : Query) : Except Failure Json := do
  let c ← q.checked
  return Json.ofMembers ((if c.isEmpty then [] else [("search", .string c.render)]) ++ q.options)

/-- The parameters appended to a request. -/
def apply (q : Query) (r : Request) : Except Failure Request := return r.withPairs (← q.compile)

end Query

end CatalogClient
