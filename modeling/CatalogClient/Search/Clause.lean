import CatalogClient.Decimal.Reader
import CatalogClient.Failure
import CatalogClient.Json.Writer
import CatalogClient.Search.FieldKind
/-!
One condition of a search: a field, an operator, a value, and the locales and channel it looks at.
A clause is checked against the kind of its field: first the operator, then the value, then the
context.
-/

namespace CatalogClient

/-- What a clause looks at, which decides the context it may carry. -/
inductive Target
  /-- A built-in property. -/
  | property
  /-- An attribute, which may depend on a locale and a channel. -/
  | attributeValue
  | raw
  deriving DecidableEq, Repr

/-- The locale, channel and locales of a clause. -/
structure Context where
  locale : Option String
  scope : Option String
  locales : Option (List String)
  deriving DecidableEq, Repr

def Context.none : Context := ⟨.none, .none, .none⟩

/-- What the elements of a value have to be. -/
inductive ElementType
  | boolean
  | integer
  /-- A number, or a text that reads as one. -/
  | number
  | string
  deriving DecidableEq, Repr

namespace ElementType

def label : ElementType → String
  | .boolean => "a boolean"
  | .integer => "an integer"
  | .number => "a numeric"
  | .string => "a string"

def admits : ElementType → Json → Bool
  | .boolean, .bool _ => true
  | .integer, .number (.integer ..) => true
  | .number, .number _ => true
  | .number, .string s => (Decimal.readFloat? s).isSome
  | .string, .string _ => true
  | _, _ => false

end ElementType

structure Clause where
  field : String
  kind : FieldKind
  target : Target
  operator : Operator
  value : Option Json
  context : Context
  deriving DecidableEq, Repr

inductive ClauseFault
  | operatorNotAllowed (op : Operator) (kind : FieldKind)
  | takesNoValue (op : Operator)
  | requiresValue (op : Operator)
  | expectsSingle (op : Operator)
  | expectsList (op : Operator)
  | expectsBounds (op : Operator)
  | wrongElement (expected : ElementType) (got : Json)
  | attributeLocales
  | completenessScope
  | completenessLocale
  | completenessBoth
  | qualityContext
  | noContext (field : String)
  deriving DecidableEq, Repr

def ClauseFault.message : ClauseFault → String
  | .operatorNotAllowed op kind =>
    "operator " ++ op.token ++ " is not allowed on " ++ kind.label ++ " fields"
  | .takesNoValue op => "operator " ++ op.token ++ " takes no value"
  | .requiresValue op => "operator " ++ op.token ++ " requires a value"
  | .expectsSingle op => "operator " ++ op.token ++ " expects a single value"
  | .expectsList op => "operator " ++ op.token ++ " expects a non-empty list"
  | .expectsBounds op => "operator " ++ op.token ++ " expects a list of two bounds"
  | .wrongElement expected got => "expected " ++ expected.label ++ " value, got " ++ got.render
  | .attributeLocales => "attribute filters take a single locale"
  | .completenessScope => "completeness filters require a scope"
  | .completenessLocale => "completeness filters take locales, not locale"
  | .completenessBoth => "completeness filters take locale or locales, not both"
  | .qualityContext => "quality score filters require a scope and a locale"
  | .noContext field => field ++ " filters are not localizable or scopable"

namespace Clause

def make (field : String) (kind : FieldKind) (target : Target) (op : Operator) (value : Json) :
    Clause :=
  ⟨field, kind, target, op, if op.takesValue then some value else none, .none⟩

def elementType (c : Clause) : ElementType :=
  if c.operator = .sinceLastDays then .integer
  else match c.kind with
    | .enabled | .boolean => .boolean
    | .completeness => .integer
    | .number => .number
    | _ => .string

/-- The elements of a value of the shape its operator takes. -/
def elements (c : Clause) : Except ClauseFault (List Json) :=
  match c.operator.shape, c.value with
  | .absent, none => .ok []
  | .absent, some _ => .error (.takesNoValue c.operator)
  | _, none => .error (.requiresValue c.operator)
  | .scalar, some (.array _) => .error (.expectsSingle c.operator)
  | .scalar, some v => .ok [v]
  | .list, some (.array (v :: vs)) => .ok (v :: vs)
  | .list, some _ => .error (.expectsList c.operator)
  | .range, some (.array [a, b]) => .ok [a, b]
  | .range, some _ => .error (.expectsBounds c.operator)

def checkValue (c : Clause) : Except ClauseFault Unit := do
  let vs ← c.elements
  match vs.find? (! c.elementType.admits ·) with
  | some bad => throw (.wrongElement c.elementType bad)
  | none => return

def checkContext (c : Clause) : Except ClauseFault Unit :=
  match c.target with
  | .raw => .ok ()
  | .attributeValue => if c.context.locales.isSome then .error .attributeLocales else .ok ()
  | .property =>
    match c.kind with
    | .completeness =>
      if c.context.scope.isNone then .error .completenessScope
      else if c.context.locale.isSome then .error .completenessLocale
      else .ok ()
    | .modelCompleteness =>
      if c.context.scope.isNone then .error .completenessScope
      else if c.context.locale.isSome ∧ c.context.locales.isSome then .error .completenessBoth
      else .ok ()
    | .qualityScore =>
      if c.context.scope.isNone ∨ c.context.locale.isNone then .error .qualityContext else .ok ()
    | _ => if c.context = .none then .ok () else .error (.noContext c.field)

def check (c : Clause) : Except ClauseFault Unit := do
  if ! c.kind.allows c.operator then throw (.operatorNotAllowed c.operator c.kind)
  if c.kind ≠ .any then c.checkValue
  c.checkContext

/-- The check with its fault as a failure of the clause's field. -/
def validate (c : Clause) : Except Failure Unit :=
  c.check.mapError fun f => .invalidField c.field f.message

/-- The clause in the criteria of a search: operator, value, locale, scope and locales, in this
order, without those it does not have. -/
def toJson (c : Clause) : Json :=
  .object (("operator", .string c.operator.token) ::
    (c.value.map fun v => ("value", v)).toList ++
    (c.context.locale.map fun l => ("locale", .string l)).toList ++
    (c.context.scope.map fun s => ("scope", .string s)).toList ++
    (c.context.locales.map fun ls => ("locales", .array (ls.map .string))).toList)

end Clause

end CatalogClient
