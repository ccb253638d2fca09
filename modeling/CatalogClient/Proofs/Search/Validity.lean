import Mathlib.Tactic.MkIffOfInductiveProp
import CatalogClient.Proofs.Bind
import CatalogClient.Proofs.Search.Calls
/-!
Which searches are valid, said of their calls: every operator text names an operator, and every clause on a
field of a known kind is lawful. A search compiles exactly when it is valid. If not, every way to use it fails
alike, with the fault of the first operator text that is none, or else of the first clause that is not lawful.
-/

namespace CatalogClient

namespace Clause

variable {c : Clause}

/-- What the value of a clause consists of: its items if it is a list, itself otherwise. -/
def parts (c : Clause) : List Json :=
  match c.value with
  | none => []
  | some (.array xs) => xs
  | some v => [v]

/-- The value has the shape that the operator takes. -/
structure Shaped (c : Clause) : Prop where
  present : c.value.isSome ↔ c.operator.takesValue
  scalar : c.operator.shape = .scalar → ∀ xs, c.value ≠ some (.array xs)
  list : c.operator.shape = .list → ∃ x xs, c.value = some (.array (x :: xs))
  range : c.operator.shape = .range → ∃ a b, c.value = some (.array [a, b])

/-- What the value consists of has the type that the kind and the operator require. -/
@[mk_iff]
structure Typed (c : Clause) : Prop where
  integers : c.operator = .sinceLastDays ∨ c.kind = .completeness →
    ∀ v ∈ c.parts, ∃ n hrange, v = .number (.integer n hrange)
  booleans : c.kind = .enabled ∨ c.kind = .boolean → ∀ v ∈ c.parts, ∃ b, v = .bool b
  numbers : c.kind = .number →
    ∀ v ∈ c.parts, (∃ n, v = .number n) ∨ ∃ s, v = .string s ∧ (Decimal.readFloat? s).isSome
  strings : c.operator ≠ .sinceLastDays → c.kind ∉ [.completeness, .enabled, .boolean, .number] →
    ∀ v ∈ c.parts, ∃ s, v = .string s

/-- The clause says what its kind has to know of channel and locale. -/
@[mk_iff]
structure Situated (c : Clause) : Prop where
  scope : c.kind ∈ [.completeness, .modelCompleteness, .qualityScore] → c.context.scope.isSome
  locale : c.kind = .qualityScore → c.context.locale.isSome
  either : c.kind = .modelCompleteness → c.context.locale = none ∨ c.context.locales = none

structure Lawful (c : Clause) : Prop where
  allowed : c.operator ∈ c.kind.operators
  shaped : c.Shaped
  typed : c.Typed
  situated : c.Situated

theorem shaped_absent (h : c.operator.shape = .absent) : c.Shaped ↔ c.value = none := by
  refine ⟨fun hc => ?_, fun hvalue => ⟨by simp [hvalue, Operator.takesValue, h], ?_, ?_, ?_⟩⟩
  · simpa [Operator.takesValue, h] using hc.present
  all_goals simp [h]

theorem shaped_scalar (h : c.operator.shape = .scalar) :
    c.Shaped ↔ ∃ v, c.value = some v ∧ ∀ xs, v ≠ .array xs := by
  constructor
  · intro hc
    obtain ⟨v, hv⟩ := Option.isSome_iff_exists.mp (hc.present.mpr (by simp [Operator.takesValue, h]))
    exact ⟨v, hv, fun xs hxs => hc.scalar h xs (hxs ▸ hv)⟩
  · rintro ⟨v, hv, hno⟩
    refine ⟨by simp [hv, Operator.takesValue, h], fun _ xs hxs => ?_, ?_, ?_⟩
    · exact hno xs (Option.some.inj (hv.symm.trans hxs))
    all_goals simp [h]

theorem shaped_list (h : c.operator.shape = .list) : c.Shaped ↔ ∃ x xs, c.value = some (.array (x :: xs)) := by
  refine ⟨fun hc => hc.list h, fun ⟨x, xs, hv⟩ => ⟨?_, ?_, fun _ => ⟨x, xs, hv⟩, ?_⟩⟩
  · simp [hv, Operator.takesValue, h]
  all_goals simp [h]

theorem shaped_range (h : c.operator.shape = .range) : c.Shaped ↔ ∃ a b, c.value = some (.array [a, b]) := by
  refine ⟨fun hc => hc.range h, fun ⟨a, b, hv⟩ => ⟨?_, ?_, ?_, fun _ => ⟨a, b, hv⟩⟩⟩
  · simp [hv, Operator.takesValue, h]
  all_goals simp [h]

theorem elements_eq_ok {vs : List Json} : c.elements = .ok vs ↔ c.Shaped ∧ c.parts = vs := by
  cases hshape : c.operator.shape with
  | absent =>
    rw [shaped_absent hshape]
    cases hvalue : c.value <;> simp [elements, parts, hshape, hvalue]
  | scalar =>
    rw [shaped_scalar hshape]
    cases hvalue : c.value with
    | none => simp [elements, hshape, hvalue]
    | some v => cases v <;> simp [elements, parts, hshape, hvalue]
  | list =>
    rw [shaped_list hshape]
    cases hvalue : c.value with
    | none => simp [elements, hshape, hvalue]
    | some v =>
      cases v with
      | array xs => cases xs <;> simp [elements, parts, hshape, hvalue]
      | _ => simp [elements, hshape, hvalue]
  | range =>
    rw [shaped_range hshape]
    cases hvalue : c.value with
    | none => simp [elements, hshape, hvalue]
    | some v =>
      cases v with
      | array xs => rcases xs with _ | ⟨a, _ | ⟨b, _ | ⟨x, xs⟩⟩⟩ <;> simp [elements, parts, hshape, hvalue]
      | _ => simp [elements, hshape, hvalue]

end Clause

namespace ElementType

variable {v : Json}

theorem admits_boolean : boolean.admits v ↔ ∃ b, v = .bool b := by
  cases v <;> simp [admits]

theorem admits_integer : integer.admits v ↔ ∃ n hrange, v = .number (.integer n hrange) := by
  cases v with
  | number n =>
    cases n with
    | integer n hrange => simp [admits, hrange]
    | double x => simp [admits]
  | _ => simp [admits]

theorem admits_number :
    number.admits v ↔ (∃ n, v = .number n) ∨ ∃ s, v = .string s ∧ (Decimal.readFloat? s).isSome := by
  cases v <;> simp [admits]

theorem admits_string : string.admits v ↔ ∃ s, v = .string s := by
  cases v <;> simp [admits]

end ElementType

namespace Clause

variable {c : Clause}

/-- Days are counted on dates only, so no other requirement stands against the one for them. -/
theorem kind_sinceLastDays (hallowed : c.operator ∈ c.kind.operators) (h : c.operator = .sinceLastDays) :
    c.kind = .date := by
  rw [h] at hallowed
  revert hallowed
  cases c.kind <;> decide

theorem admits_parts (hallowed : c.operator ∈ c.kind.operators) :
    (∀ v ∈ c.parts, c.elementType.admits v) ↔ c.Typed := by
  -- The operator decides before the kind does.
  by_cases hdays : c.operator = .sinceLastDays
  · simp [elementType, typed_iff, hdays, kind_sinceLastDays hallowed hdays, ElementType.admits_integer]
  · cases hkind : c.kind <;>
      simp [elementType, typed_iff, hdays, hkind, ElementType.admits_integer, ElementType.admits_boolean,
        ElementType.admits_number, ElementType.admits_string]

theorem checkValue_eq_ok (hallowed : c.operator ∈ c.kind.operators) :
    c.checkValue = .ok () ↔ c.Shaped ∧ c.Typed := by
  rw [checkValue, except_bind_ok, ← admits_parts hallowed]
  constructor
  · rintro ⟨vs, hvs, h⟩
    obtain ⟨hshaped, rfl⟩ := elements_eq_ok.mp hvs
    split at h
    · cases h
    · rename_i hfind
      exact ⟨hshaped, by simpa using hfind⟩
  · rintro ⟨hshaped, htyped⟩
    have hfind : c.parts.find? (! c.elementType.admits ·) = none := by simpa using htyped
    exact ⟨c.parts, elements_eq_ok.mpr ⟨hshaped, rfl⟩, by rw [hfind]; rfl⟩

/-- The context of a clause as calls give it: none where the kind has no use for it. -/
structure Placed (c : Clause) : Prop where
  raw : c.target = .raw ↔ c.kind = .any
  attributeValue : c.target = .attributeValue →
    c.context.locales = none ∧ c.kind ∉ [.completeness, .modelCompleteness, .qualityScore]
  completeness : c.kind = .completeness → c.context.locale = none
  property : c.target = .property → c.kind ∉ [.completeness, .modelCompleteness, .qualityScore] →
    c.context = .none

theorem checkContext_eq_ok (hc : c.Placed) : c.checkContext = .ok () ↔ c.Situated := by
  cases htarget : c.target with
  | raw => simp [checkContext, situated_iff, htarget, hc.raw.mp htarget]
  | attributeValue =>
    obtain ⟨hlocales, hkind⟩ := hc.attributeValue htarget
    simp only [List.mem_cons, List.not_mem_nil, or_false, not_or] at hkind
    simp [checkContext, situated_iff, htarget, hlocales, hkind]
  | property =>
    have hcompleteness := hc.completeness
    have hproperty := hc.property htarget
    cases hkind : c.kind with
    | completeness =>
      simp [checkContext, situated_iff, htarget, hkind, hcompleteness hkind, ← Option.isSome_iff_ne_none]
    | modelCompleteness =>
      cases hscope : c.context.scope <;> cases hlocale : c.context.locale <;> cases hlocales : c.context.locales <;>
        simp [checkContext, situated_iff, htarget, hkind, hscope, hlocale, hlocales]
    | qualityScore => simp [checkContext, situated_iff, htarget, hkind, ← Option.isSome_iff_ne_none]
    | _ => simp_all [checkContext, situated_iff]

theorem check_raw (h : c.kind = .any) : c.check = c.checkContext := by
  simp [check, FieldKind.allows, h]

theorem check_allowed (h : c.kind ≠ .any) (hallowed : c.operator ∈ c.kind.operators) :
    c.check = c.checkValue >>= fun _ => c.checkContext := by
  simp [check, FieldKind.allows, h, hallowed]

theorem check_refused (h : c.kind ≠ .any) (hallowed : c.operator ∉ c.kind.operators) :
    c.check = .error (.operatorNotAllowed c.operator c.kind) := by
  simp [check, FieldKind.allows, h, hallowed]
  rfl

theorem check_eq_ok (hc : c.Placed) : c.check = .ok () ↔ (c.target ≠ .raw → c.Lawful) := by
  by_cases hkind : c.kind = .any
  · rw [check_raw hkind, checkContext, hc.raw.mpr hkind]
    simp
  · have htarget : c.target ≠ .raw := mt hc.raw.mp hkind
    simp only [ne_eq, htarget, not_false_eq_true, true_imp_iff]
    by_cases hallowed : c.operator ∈ c.kind.operators
    · rw [check_allowed hkind hallowed, except_bind_ok]
      constructor
      · rintro ⟨⟨⟩, hvalue, hcontext⟩
        obtain ⟨hshaped, htyped⟩ := (checkValue_eq_ok hallowed).mp hvalue
        exact ⟨hallowed, hshaped, htyped, (checkContext_eq_ok hc).mp hcontext⟩
      · rintro ⟨-, hshaped, htyped, hsituated⟩
        exact ⟨(), (checkValue_eq_ok hallowed).mpr ⟨hshaped, htyped⟩, (checkContext_eq_ok hc).mpr hsituated⟩
    · rw [check_refused hkind hallowed]
      exact ⟨(nomatch ·), fun h => absurd h.allowed hallowed⟩

theorem validate_eq_ok (hc : c.Placed) : c.validate = .ok () ↔ (c.target ≠ .raw → c.Lawful) := by
  rw [← check_eq_ok hc, validate]
  cases c.check with
  | ok u => exact ⟨fun _ => rfl, fun _ => rfl⟩
  | error fault => exact ⟨(nomatch ·), (nomatch ·)⟩

theorem validate_eq_error {e : Failure} (hc : c.Placed) (h : c.validate = .error e) :
    c.target ≠ .raw ∧ ¬ c.Lawful ∧ ∃ fault, c.check = .error fault ∧ e = .invalidField c.field fault.message := by
  have hlawful : ¬ (c.target ≠ .raw → c.Lawful) := by
    rw [← validate_eq_ok hc, h]
    exact (nomatch ·)
  cases hcheck : c.check with
  | ok u => exact absurd ((check_eq_ok hc).mp hcheck) hlawful
  | error fault =>
    rw [validate, hcheck] at h
    cases h
    exact ⟨fun htarget => hlawful fun hno => absurd htarget hno, fun hc => hlawful fun _ => hc, fault, rfl, rfl⟩

end Clause

namespace Query

namespace Call

theorem placed_of_mem {call : Call} {c : Clause} (hc : c ∈ call.clauses) : c.Placed := by
  cases call with
  | raw field operator value context =>
    rw [clauses_raw] at hc
    obtain ⟨op, -, rfl⟩ := Option.map_eq_some_iff.mp (Option.mem_toList.mp hc)
    constructor <;> simp
  | searchLocale | searchScope | attributes | locales | scope | page | limit | count =>
    exact absurd hc List.not_mem_nil
  | _ =>
    cases List.mem_singleton.mp hc
    constructor <;> simp [Clause.make, Context.none]

/-- The text for an operator names one, and the clause on a field of a known kind is lawful. -/
structure Valid (call : Call) : Prop where
  named : ∀ text ∈ call.operatorText?, Operator.Named text
  lawful : ∀ c ∈ call.clauses, c.target ≠ .raw → c.Lawful

end Call

variable {calls : List Call}

theorem unknown_eq_nil :
    (ofCalls calls).unknown = [] ↔ ∀ call ∈ calls, ∀ text ∈ call.operatorText?, Operator.Named text := by
  rw [unknown_ofCalls, List.flatMap_eq_nil_iff]
  exact forall₂_congr fun call _ => Call.strays_eq_nil

theorem unknown_eq_cons {field text : String} {more : List (String × String)}
    (h : (ofCalls calls).unknown = (field, text) :: more) :
    ∃ before value context after, calls = before ++ .raw field text value context :: after ∧
      (∀ call ∈ before, ∀ t ∈ call.operatorText?, Operator.Named t) ∧ ¬ Operator.Named text := by
  rw [unknown_ofCalls] at h
  induction calls with
  | nil => cases h
  | cons call calls ih =>
    rw [List.flatMap_cons] at h
    cases hstrays : call.strays with
    | nil =>
      rw [hstrays] at h
      obtain ⟨before, value, context, after, rfl, hbefore, htext⟩ := ih h
      exact ⟨call :: before, value, context, after, rfl,
        List.forall_mem_cons.mpr ⟨Call.strays_eq_nil.mp hstrays, hbefore⟩, htext⟩
    | cons stray strays =>
      rw [hstrays, List.cons_append] at h
      cases h
      obtain ⟨⟨value, context, rfl⟩, htext⟩ := Call.strays_eq_cons hstrays
      exact ⟨[], value, context, calls, rfl, fun _ h => absurd h List.not_mem_nil, htext⟩

theorem placed_of_mem {c : Clause} (hc : c ∈ (ofCalls calls).criteria.clauses) : c.Placed :=
  let ⟨_, _, h⟩ := mem_criteria_ofCalls.mp hc
  Call.placed_of_mem h

theorem validate_criteria :
    (ofCalls calls).criteria.validate = .ok () ↔
      ∀ call ∈ calls, ∀ c ∈ call.clauses, c.target ≠ .raw → c.Lawful := by
  rw [Criteria.validate, except_forM_ok]
  constructor
  · intro h call hcall c hc
    exact (Clause.validate_eq_ok (Call.placed_of_mem hc)).mp (h c (mem_criteria_ofCalls.mpr ⟨call, hcall, hc⟩))
  · intro h c hc
    obtain ⟨call, hcall, hmem⟩ := mem_criteria_ofCalls.mp hc
    exact (Clause.validate_eq_ok (Call.placed_of_mem hmem)).mpr (h call hcall c hmem)

theorem checked_of_unknown_eq_nil {q : Query} (h : q.unknown = []) :
    q.checked = q.criteria.validate.map fun _ => q.criteria := by
  rw [checked, h]
  cases q.criteria.validate <;> rfl

theorem checked_eq_ok {s : Criteria} :
    (ofCalls calls).checked = .ok s ↔ (∀ call ∈ calls, call.Valid) ∧ (ofCalls calls).criteria = s := by
  have hvalid : (∀ call ∈ calls, call.Valid) ↔
      (ofCalls calls).unknown = [] ∧ (ofCalls calls).criteria.validate = .ok () := by
    rw [unknown_eq_nil, validate_criteria]
    exact ⟨fun h => ⟨fun call hcall => (h call hcall).named, fun call hcall => (h call hcall).lawful⟩,
      fun h call hcall => ⟨h.1 call hcall, h.2 call hcall⟩⟩
  rw [hvalid]
  cases hunknown : (ofCalls calls).unknown with
  | nil =>
    rw [checked_of_unknown_eq_nil hunknown]
    cases (ofCalls calls).criteria.validate <;> simp [Except.map]
  | cons stray strays => simp [checked, hunknown]

/-- Whom a failure of a search blames: the first text for an operator that names none, or without such a text
the first clause, in the order of the criteria, that is not lawful. -/
inductive Blames (calls : List Call) : Failure → Prop
  | text {before after : List Call} {field text : String} {value : Option Json} {context : Context}
      (hcalls : calls = before ++ .raw field text value context :: after)
      (hbefore : ∀ call ∈ before, ∀ t ∈ call.operatorText?, Operator.Named t) (htext : ¬ Operator.Named text) :
      Blames calls (.validation none ("unknown search operator '" ++ text ++ "'") (some field)
        [⟨field, "unknown search operator '" ++ text ++ "'"⟩])
  | clause {before after : List Clause} {c : Clause} {fault : ClauseFault}
      (htexts : ∀ call ∈ calls, ∀ t ∈ call.operatorText?, Operator.Named t)
      (hclauses : (ofCalls calls).criteria.clauses = before ++ c :: after)
      (hbefore : ∀ b ∈ before, b.target ≠ .raw → b.Lawful) (htarget : c.target ≠ .raw) (hlawful : ¬ c.Lawful)
      (hfault : c.check = .error fault) :
      Blames calls (.validation none fault.message (some c.field) [⟨c.field, fault.message⟩])

theorem blames_of_checked {e : Failure} (h : (ofCalls calls).checked = .error e) : Blames calls e := by
  -- A text that names no operator wins over any clause, wherever the calls stand.
  cases hunknown : (ofCalls calls).unknown with
  | cons stray strays =>
    obtain ⟨before, value, context, after, hcalls, hbefore, htext⟩ := unknown_eq_cons hunknown
    rw [checked, hunknown] at h
    cases h
    exact .text hcalls hbefore htext
  | nil =>
    rw [checked_of_unknown_eq_nil hunknown] at h
    cases hvalidate : (ofCalls calls).criteria.validate with
    | ok u =>
      rw [hvalidate] at h
      cases h
    | error e' =>
      rw [hvalidate] at h
      cases h
      obtain ⟨before, c, after, hclauses, hbefore, hc⟩ := except_forM_error hvalidate
      have hplaced (b : Clause) (hb : b ∈ before ++ c :: after) : b.Placed := placed_of_mem (hclauses ▸ hb)
      obtain ⟨htarget, hlawful, fault, hfault, rfl⟩ := Clause.validate_eq_error (hplaced c (by simp)) hc
      refine .clause (unknown_eq_nil.mp hunknown) hclauses (fun b hb => ?_) htarget hlawful hfault
      exact (Clause.validate_eq_ok (hplaced b (List.mem_append_left _ hb))).mp (hbefore b hb)

theorem compile_eq_error {q : Query} {e : Failure} : q.compile = .error e ↔ q.checked = .error e := by
  cases h : q.checked <;> simp [compile, h, bind, Except.bind, pure, Except.pure]

theorem compileBody_eq_error {q : Query} {e : Failure} : q.compileBody = .error e ↔ q.checked = .error e := by
  cases h : q.checked <;> simp [compileBody, h, bind, Except.bind, pure, Except.pure]

theorem apply_eq_error {q : Query} {r : Request} {e : Failure} : q.apply r = .error e ↔ q.compile = .error e := by
  cases h : q.compile <;> simp [apply, h, bind, Except.bind, pure, Except.pure]

theorem compiles_exactly_the_valid (calls : List Call) :
    ((∃ pairs, (ofCalls calls).compile = .ok pairs) ↔ ∀ call ∈ calls, call.Valid) ∧
    ∀ e, (ofCalls calls).compile = .error e →
      (ofCalls calls).compileBody = .error e ∧ (ofCalls calls).checked = .error e ∧
      (∀ r, (ofCalls calls).apply r = .error e) ∧ Blames calls e := by
  constructor
  · constructor
    · rintro ⟨pairs, hpairs⟩
      obtain ⟨s, hs, -⟩ := except_bind_ok.mp hpairs
      exact (checked_eq_ok.mp hs).1
    · intro h
      exact ⟨_, except_bind_ok.mpr ⟨_, checked_eq_ok.mpr ⟨h, rfl⟩, rfl⟩⟩
  · intro e h
    have hchecked := compile_eq_error.mp h
    exact ⟨compileBody_eq_error.mpr hchecked, hchecked, fun r => apply_eq_error.mpr h, blames_of_checked hchecked⟩

theorem stray_text_blamed :
    (∀ call ∈ [Call.enabled .equal true, .raw "sku" " not in " none .none], call.Valid) ∧
      (ofCalls [.enabled .isIn true, .raw "family" "nearly" none .none]).apply (Request.get "products") =
        .error (.invalidField "family" "unknown search operator 'nearly'") ∧
      Blames [.enabled .isIn true, .raw "family" "nearly" none .none]
        (.invalidField "family" "unknown search operator 'nearly'") := by
  obtain ⟨-, -, happly, hblames⟩ :=
    (compiles_exactly_the_valid [.enabled .isIn true, .raw "family" "nearly" none .none]).2 _ rfl
  exact ⟨(compiles_exactly_the_valid _).1.mp ⟨_, rfl⟩, happly _, hblames⟩

end Query

end CatalogClient
