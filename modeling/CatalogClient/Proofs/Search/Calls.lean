import CatalogClient.Search.Query
/-!
Searches as they come about: call by call, from the empty search. A call adds one clause, sets an option, or
leaves a text behind that names no operator, and what it adds does not hang on the calls before it.
-/

namespace CatalogClient

namespace Criteria

theorem mem_pushGroup {c d : Clause} {gs : List (String × List Clause)} :
    d ∈ (pushGroup c gs).flatMap (·.2) ↔ d ∈ gs.flatMap (·.2) ∨ d = c := by
  induction gs with
  | nil => simp [pushGroup]
  | cons g gs ih =>
    obtain ⟨field, cs⟩ := g
    simp only [pushGroup]
    split
    · simp only [List.flatMap_cons, List.mem_append, List.mem_singleton]
      exact or_right_comm
    · simp only [List.flatMap_cons, List.mem_append, ih, or_assoc]

theorem mem_clauses_foldl {d : Clause} {cs : List Clause} {s : Criteria} :
    d ∈ (cs.foldl push s).clauses ↔ d ∈ s.clauses ∨ d ∈ cs := by
  induction cs generalizing s with
  | nil => simp
  | cons c cs ih =>
    have hpush : d ∈ (s.push c).clauses ↔ d ∈ s.clauses ∨ d = c := mem_pushGroup
    rw [List.foldl_cons, ih, hpush, List.mem_cons, or_assoc]

theorem mem_clauses_ofList {d : Clause} {cs : List Clause} : d ∈ (ofList cs).clauses ↔ d ∈ cs := by
  rw [ofList, mem_clauses_foldl]
  simp [clauses, empty]

end Criteria

namespace Operator

/-- A text names an operator by its token, up to blanks around it and the case of letters. -/
def Named (text : String) : Prop :=
  ∃ op : Operator, Text.sameIgnoringCase (Text.trim text) op.token

theorem parse?_isSome {text : String} : (WireToken.parse? (α := Operator) text).isSome ↔ Named text := by
  rw [WireToken.parse?, List.find?_isSome]
  exact ⟨fun ⟨op, _, h⟩ => ⟨op, h⟩, fun ⟨op, h⟩ => ⟨op, mem_all op, h⟩⟩

instance (text : String) : Decidable (Named text) := decidable_of_iff _ parse?_isSome

end Operator

namespace Query

/-- A function that extends a search, with its arguments. -/
inductive Call
  | uuid (op : Operator) (values : List String)
  | identifier (op : Operator) (value : Json)
  | categories (op : Operator) (codes : List String)
  | enabled (op : Operator) (value : Bool)
  | completeness (op : Operator) (percent : Nat) (scope : String)
  | completenessIn (op : Operator) (percent : Nat) (scope : String) (locales : List String)
  | modelCompleteness (op : Operator) (context : Context)
  | family (op : Operator) (codes : List String)
  | groups (op : Operator) (codes : List String)
  | created (op : Operator) (value : Json)
  | updated (op : Operator) (value : Json)
  | parent (op : Operator) (value : Json)
  | qualityScore (op : Operator) (scores : List String) (scope locale : String)
  | attributeText (a : AttributeRef) (op : Operator) (value : Json)
  | attributeNumber (a : AttributeRef) (op : Operator) (value : Json)
  | attributeSelect (a : AttributeRef) (op : Operator) (options : List String)
  | attributeBoolean (a : AttributeRef) (op : Operator) (value : Bool)
  | attributeDate (a : AttributeRef) (op : Operator) (value : Json)
  | attributeFile (a : AttributeRef) (op : Operator) (filename : String)
  | attributeEmpty (a : AttributeRef) (isEmpty : Bool)
  | raw (field operator : String) (value : Option Json) (context : Context)
  | searchLocale (locale : String)
  | searchScope (scope : String)
  | attributes (codes : List String)
  | locales (codes : List String)
  | scope (scope : String)
  | page (number : Nat)
  | limit (limit : Nat)
  | count (counted : Bool)

namespace Call

def onto : Call → Query → Query
  | .uuid op values, q => q.uuid op values
  | .identifier op value, q => q.identifier op value
  | .categories op codes, q => q.categories op codes
  | .enabled op value, q => q.enabled op value
  | .completeness op percent channel, q => q.completeness op percent channel
  | .completenessIn op percent channel codes, q => q.completenessIn op percent channel codes
  | .modelCompleteness op context, q => q.modelCompleteness op context
  | .family op codes, q => q.family op codes
  | .groups op codes, q => q.groups op codes
  | .created op value, q => q.created op value
  | .updated op value, q => q.updated op value
  | .parent op value, q => q.parent op value
  | .qualityScore op scores channel locale, q => q.qualityScore op scores channel locale
  | .attributeText a op value, q => q.attributeText a op value
  | .attributeNumber a op value, q => q.attributeNumber a op value
  | .attributeSelect a op options, q => q.attributeSelect a op options
  | .attributeBoolean a op value, q => q.attributeBoolean a op value
  | .attributeDate a op value, q => q.attributeDate a op value
  | .attributeFile a op filename, q => q.attributeFile a op filename
  | .attributeEmpty a isEmpty, q => q.attributeEmpty a isEmpty
  | .raw field operator value context, q => q.raw field operator value context
  | .searchLocale locale, q => q.withSearchLocale locale
  | .searchScope code, q => q.withSearchScope code
  | .attributes codes, q => q.withAttributes codes
  | .locales codes, q => q.withLocales codes
  | .scope code, q => q.withScope code
  | .page number, q => q.withPage number
  | .limit number, q => q.withLimit number
  | .count counted, q => q.withCount counted

/-- The clauses that a call adds to the empty search. -/
def clauses (call : Call) : List Clause := (call.onto .empty).criteria.clauses

/-- The texts for which a call finds no operator, with their fields. -/
def strays (call : Call) : List (String × String) := (call.onto .empty).unknown

theorem criteria_onto (call : Call) (q : Query) :
    (call.onto q).criteria = call.clauses.foldl Criteria.push q.criteria := by
  cases call with
  | raw field operator value context =>
    cases h : WireToken.parse? (α := Operator) operator <;> simp only [clauses, onto, Query.raw, h] <;> rfl
  | _ => rfl

theorem unknown_onto (call : Call) (q : Query) : (call.onto q).unknown = q.unknown ++ call.strays := by
  cases call with
  | raw field operator value context =>
    cases h : WireToken.parse? (α := Operator) operator <;> simp only [strays, onto, Query.raw, h]
    · rfl
    · exact (List.append_nil _).symm
  | _ => exact (List.append_nil _).symm

theorem clauses_raw (field text : String) (value : Option Json) (context : Context) :
    (raw field text value context).clauses =
      ((WireToken.parse? text).map fun op => ⟨field, .any, .raw, op, value, context⟩).toList := by
  cases h : WireToken.parse? (α := Operator) text <;> simp only [clauses, onto, Query.raw, h] <;> rfl

theorem strays_raw (field text : String) (value : Option Json) (context : Context) :
    (raw field text value context).strays =
      if (WireToken.parse? (α := Operator) text).isSome then [] else [(field, text)] := by
  cases h : WireToken.parse? (α := Operator) text <;> simp only [strays, onto, Query.raw, h] <;> rfl

def operatorText? : Call → Option String
  | .raw _ operator _ _ => some operator
  | _ => none

theorem strays_eq_nil {call : Call} : call.strays = [] ↔ ∀ text ∈ call.operatorText?, Operator.Named text := by
  cases call with
  | raw field operator value context =>
    simp [strays_raw, operatorText?, Operator.parse?_isSome]
  | _ => exact ⟨fun _ _ h => (Option.not_mem_none _ h).elim, fun _ => rfl⟩

theorem strays_eq_cons {call : Call} {field text : String} {more : List (String × String)}
    (h : call.strays = (field, text) :: more) :
    (∃ value context, call = raw field text value context) ∧ ¬ Operator.Named text := by
  cases call with
  | raw f operator value context =>
    rw [strays_raw] at h
    split at h
    · cases h
    · rename_i hparse
      cases h
      exact ⟨⟨value, context, rfl⟩, mt Operator.parse?_isSome.mpr hparse⟩
  | _ => cases h

end Call

def ofCalls (calls : List Call) : Query := calls.foldl (fun q call => call.onto q) empty

variable {calls : List Call}

theorem criteria_ofCalls : (ofCalls calls).criteria = .ofList (calls.flatMap Call.clauses) := by
  have hfold (q : Query) : (calls.foldl (fun q call => call.onto q) q).criteria =
      (calls.flatMap Call.clauses).foldl Criteria.push q.criteria := by
    induction calls generalizing q with
    | nil => rfl
    | cons call calls ih => rw [List.foldl_cons, ih, List.flatMap_cons, List.foldl_append, Call.criteria_onto]
  exact hfold empty

theorem unknown_ofCalls : (ofCalls calls).unknown = calls.flatMap Call.strays := by
  have hfold (q : Query) : (calls.foldl (fun q call => call.onto q) q).unknown =
      q.unknown ++ calls.flatMap Call.strays := by
    induction calls generalizing q with
    | nil => exact (List.append_nil _).symm
    | cons call calls ih => rw [List.foldl_cons, ih, List.flatMap_cons, Call.unknown_onto, List.append_assoc]
  exact hfold empty

theorem mem_criteria_ofCalls {c : Clause} :
    c ∈ (ofCalls calls).criteria.clauses ↔ ∃ call ∈ calls, c ∈ call.clauses := by
  rw [criteria_ofCalls, Criteria.mem_clauses_ofList, List.mem_flatMap]

/-- The ready-made searches are searches of one call. -/
theorem ready_made_ofCalls :
    enabledProducts = ofCalls [.enabled .equal true] ∧
    (∀ codes, inCategories codes = ofCalls [.categories .isIn codes]) ∧
    (∀ codes, withFamily codes = ofCalls [.family .isIn codes]) ∧
    (∀ days, recentlyUpdated days = ofCalls [.updated .sinceLastDays (Json.ofNat days)]) ∧
    ∀ scope threshold, incomplete scope threshold = ofCalls [.completeness .lower threshold scope] :=
  ⟨rfl, fun _ => rfl, fun _ => rfl, fun _ => rfl, fun _ _ => rfl⟩

end Query

end CatalogClient
