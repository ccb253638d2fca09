import CatalogClient.Proofs.Json.RoundTrip
import CatalogClient.Proofs.Keyed
import CatalogClient.Proofs.Search.Options
import CatalogClient.Proofs.Search.Validity
/-!
The text of the criteria is read back as an object that has the fields of the clauses for its keys, and at each
field its clauses, in the order of their calls. Nothing of a clause is lost but the kind of its field and what it
looks at, so two searches with one text have the same criteria up to these.
-/

namespace CatalogClient

/-- What the criteria tell of a clause besides its field. -/
structure Condition where
  operator : Operator
  value : Option Json
  context : Context
  deriving DecidableEq, Repr

def Clause.condition (c : Clause) : Condition := ⟨c.operator, c.value, c.context⟩

namespace Condition

def text? : Option Json → Option (Option String)
  | none => some none
  | some j => j.string?.map some

def texts? : Option Json → Option (Option (List String))
  | none => some none
  | some (.array xs) => (xs.mapM Json.string?).map some
  | some _ => none

def ofJson? (j : Json) : Option Condition := do
  let token ← (← j.get? "operator").string?
  let op ← Operator.all.find? (·.token = token)
  return ⟨op, j.get? "value", ⟨← text? (j.get? "locale"), ← text? (j.get? "scope"), ← texts? (j.get? "locales")⟩⟩

theorem text?_map (o : Option String) : text? (o.map .string) = some o := by cases o <;> rfl

theorem texts?_map (o : Option (List String)) : texts? (o.map fun ls => .array (ls.map .string)) = some o := by
  cases o with
  | none => rfl
  | some ls =>
    have h : (ls.map Json.string).mapM Json.string? = some (ls.map id) := mapM_map_some fun _ _ => rfl
    rw [Option.map_some, texts?, h, List.map_id]
    rfl

end Condition

theorem Operator.find?_token (op : Operator) : Operator.all.find? (·.token = op.token) = some op := by
  cases op <;> decide

namespace Json

theorem get?_sorted (key : String) (ms : List (String × Json)) :
    (Json.object ms).sorted.get? key = ((ms.filter (·.1 = key)).getLast?).map (·.2.sorted) := by
  rw [sorted, ofMembers, get?, member?_sortMembers, sortedMembers_eq_map, List.filter_map, List.getLast?_map,
    Option.map_map]
  rfl

end Json

namespace Clause

variable {c : Clause}

theorem sorted_strings (ls : List String) : (Json.array (ls.map .string)).sorted = .array (ls.map .string) := by
  rw [Json.sorted, Json.sortedItems_eq_map, List.map_map]
  rfl

theorem getLast?_toList {α : Type} (o : Option α) : o.toList.getLast? = o := by cases o <;> rfl

theorem filter_value (o : Option Json) (k key : String) :
    (o.map fun v => (k, v)).toList.filter (·.1 = key) = if k = key then (o.map fun v => (k, v)).toList else [] :=
  Query.filter_option o k key id

theorem ofJson?_sorted (h : ∀ v ∈ c.value, v.InOrder) : Condition.ofJson? c.toJson.sorted = some c.condition := by
  have hvalue : c.value.map Json.sorted = c.value := by
    cases hv : c.value with
    | none => rfl
    | some v => exact congrArg some (h v hv).sorted_eq
  have hget (key : String) : c.toJson.sorted.get? key =
      ((("operator", Json.string c.operator.token) ::
        (c.value.map fun v => ("value", v)).toList ++
        (c.context.locale.map fun l => ("locale", Json.string l)).toList ++
        (c.context.scope.map fun s => ("scope", Json.string s)).toList ++
        (c.context.locales.map fun ls => ("locales", Json.array (ls.map .string))).toList).filter
          (·.1 = key)).getLast?.map (·.2.sorted) := Json.get?_sorted key _
  simp only [List.cons_append, List.filter_cons, List.filter_append, Query.filter_option, filter_value] at hget
  have hoperator : c.toJson.sorted.get? "operator" = some (.string c.operator.token) := by
    rw [hget]
    simp [Json.sorted]
  have hgiven : c.toJson.sorted.get? "value" = c.value := by
    rw [hget]
    simpa [getLast?_toList, Function.comp_def] using hvalue
  have hlocale : c.toJson.sorted.get? "locale" = c.context.locale.map .string := by
    rw [hget]
    simp [getLast?_toList, Json.sorted, Function.comp_def]
  have hscope : c.toJson.sorted.get? "scope" = c.context.scope.map .string := by
    rw [hget]
    simp [getLast?_toList, Json.sorted, Function.comp_def]
  have hlocales : c.toJson.sorted.get? "locales" = c.context.locales.map fun ls => .array (ls.map .string) := by
    rw [hget]
    simp [getLast?_toList, sorted_strings, Function.comp_def]
  simp [Condition.ofJson?, hoperator, hgiven, hlocale, hscope, hlocales, Json.string?, Operator.find?_token,
    Condition.text?_map, Condition.texts?_map, condition]

theorem condition_eq_of_toJson {d : Clause} (hc : ∀ v ∈ c.value, v.InOrder) (hd : ∀ v ∈ d.value, v.InOrder)
    (h : c.toJson = d.toJson) : c.condition = d.condition := by
  have hread := ofJson?_sorted hc
  rw [h, ofJson?_sorted hd] at hread
  exact (Option.some.inj hread).symm

/-- The clause without what its text does not hold. -/
def bare (c : Clause) : Clause := { c with kind := .any, target := .raw }

theorem bare_eq {d : Clause} (hfield : c.field = d.field) (h : c.condition = d.condition) : c.bare = d.bare := by
  obtain ⟨field, kind, target, op, value, context⟩ := c
  cases h
  cases hfield
  rfl

theorem forall_mem_toJson {p : Json → Prop} (hoperator : p (.string c.operator.token)) (hvalue : ∀ v ∈ c.value, p v)
    (htext : ∀ s, p (.string s)) (htexts : ∀ ls : List String, p (.array (ls.map .string))) :
    ∃ ms, c.toJson = .object ms ∧ ∀ m ∈ ms, p m.2 := by
  have hoption {α : Type} {o : Option α} {key : String} {g : α → Json} (hg : ∀ a ∈ o, p (g a)) :
      ∀ m ∈ (o.map fun a => (key, g a)).toList, p m.2 := by
    intro m hm
    obtain ⟨a, ha, rfl⟩ := Option.map_eq_some_iff.mp (Option.mem_toList.mp hm)
    exact hg a ha
  refine ⟨_, rfl, ?_⟩
  simp only [List.cons_append, List.forall_mem_cons, List.forall_mem_append]
  exact ⟨hoperator, ⟨⟨hoption hvalue, hoption fun _ _ => htext _⟩, hoption fun _ _ => htext _⟩,
    hoption fun _ _ => htexts _⟩

theorem whole_toJson (h : ∀ v ∈ c.value, v.Whole) : c.toJson.Whole := by
  obtain ⟨ms, hms, hwhole⟩ := forall_mem_toJson (.string _) h .string fun ls => .array fun j hj => by
    obtain ⟨s, -, rfl⟩ := List.mem_map.mp hj
    exact .string s
  exact hms ▸ .object hwhole

theorem nesting_toJson {depth : Nat} (h : ∀ v ∈ c.value, v.nesting + 1 ≤ depth) (hdepth : 2 ≤ depth) :
    c.toJson.nesting ≤ depth := by
  have htext (s : String) : (Json.string s).nesting + 1 ≤ depth := by
    rw [Json.nesting_string]
    omega
  obtain ⟨ms, hms, hnesting⟩ := forall_mem_toJson (p := fun j => j.nesting + 1 ≤ depth) (htext _) h htext fun ls => by
    have hitems : Json.nestingItems (ls.map .string) ≤ 0 := Json.nestingItems_le.mpr fun j hj => by
      obtain ⟨s, -, rfl⟩ := List.mem_map.mp hj
      rw [Json.nesting_string]
    rw [Json.nesting]
    omega
  have hmembers : Json.nestingMembers ms ≤ depth - 1 :=
    Json.nestingMembers_le.mpr fun m hm => by have := hnesting m hm; omega
  rw [hms, Json.nesting]
  omega

end Clause

namespace Criteria

theorem find?_pushGroup (c : Clause) (field : String) (gs : List (String × List Clause)) :
    (pushGroup c gs).find? (·.1 = field) =
      if c.field = field then some (field, ((gs.find? (·.1 = field)).map (·.2)).getD [] ++ [c])
      else gs.find? (·.1 = field) := by
  induction gs with
  | nil => by_cases hfield : c.field = field <;> simp [pushGroup, hfield]
  | cons g gs ih =>
    obtain ⟨f, cs⟩ := g
    simp only [pushGroup]
    by_cases hf : f = c.field
    · by_cases hfield : c.field = field <;> simp [hf, hfield]
    · by_cases hfield : f = field
      · have hother : c.field ≠ field := fun h => hf (hfield.trans h.symm)
        simp [hfield, hother, Ne.symm hother]
      · simpa [hf, hfield] using ih

theorem keys_pushGroup (c : Clause) (gs : List (String × List Clause)) :
    (pushGroup c gs).map (·.1) =
      if c.field ∈ gs.map (·.1) then gs.map (·.1) else gs.map (·.1) ++ [c.field] := by
  induction gs with
  | nil => rfl
  | cons g gs ih =>
    obtain ⟨f, cs⟩ := g
    simp only [pushGroup]
    by_cases hf : f = c.field
    · simp [hf]
    · rw [if_neg hf, List.map_cons, ih]
      by_cases hmem : c.field ∈ gs.map (·.1) <;> simp_all [Ne.symm hf]

variable {cs : List Clause}

theorem ofList_append (cs : List Clause) (c : Clause) : ofList (cs ++ [c]) = (ofList cs).push c := by
  rw [ofList, List.foldl_append]
  rfl

theorem nodup_fields (cs : List Clause) : ((ofList cs).groups.map (·.1)).Nodup := by
  induction cs using List.reverseRecOn with
  | nil => exact List.nodup_nil
  | append_singleton cs c ih =>
    rw [ofList_append, push, keys_pushGroup]
    split
    · exact ih
    · rename_i hnew
      exact List.nodup_append.mpr ⟨ih, by simp, fun f hf g hg h => hnew (List.mem_singleton.mp hg ▸ h ▸ hf)⟩

/-- The clauses of a field stand together, in the order in which they came. -/
theorem find?_ofList (field : String) (cs : List Clause) :
    (ofList cs).groups.find? (·.1 = field) =
      if cs.filter (·.field = field) = [] then none else some (field, cs.filter (·.field = field)) := by
  induction cs using List.reverseRecOn with
  | nil => simp [ofList, empty]
  | append_singleton cs c ih =>
    rw [ofList_append, push, find?_pushGroup, ih, List.filter_append]
    by_cases hc : c.field = field
    · by_cases hnone : cs.filter (·.field = field) = [] <;> simp [hc, hnone]
    · simp [hc]

theorem snd_of_mem_groups {g : String × List Clause} (hg : g ∈ (ofList cs).groups) :
    g.2 = cs.filter (·.field = g.1) ∧ g.2 ≠ [] := by
  have hfind := find?_of_mem (nodup_fields cs) hg
  rw [find?_ofList] at hfind
  split at hfind
  · cases hfind
  · rename_i hsome
    have hsnd := congrArg Prod.snd (Option.some.inj hfind)
    exact ⟨hsnd.symm, hsnd ▸ hsome⟩

theorem mem_fields {field : String} : field ∈ (ofList cs).fields ↔ ∃ c ∈ cs, c.field = field := by
  have hsome : field ∈ (ofList cs).fields ↔ ((ofList cs).groups.find? (·.1 = field)).isSome := by simp [fields]
  rw [hsome, find?_ofList]
  have hnone : cs.filter (·.field = field) = [] ↔ ¬ ∃ c ∈ cs, c.field = field := by simp
  split
  · rename_i h
    exact ⟨(nomatch ·), fun hc => absurd hc (hnone.mp h)⟩
  · rename_i h
    exact ⟨fun _ => not_not.mp (mt hnone.mpr h), fun _ => rfl⟩

theorem sorted_toJson (cs : List Clause) : (ofList cs).toJson.sorted =
    Json.ofMembers ((ofList cs).groups.map fun g => (g.1, .array (g.2.map fun c => c.toJson.sorted))) := by
  simp only [toJson, Json.sorted, Json.sortedMembers_eq_map, Json.sortedItems_eq_map, List.map_map, Function.comp_def]

theorem members_sorted_toJson (h : ∀ c ∈ cs, ∀ v ∈ c.value, v.InOrder) :
    ∃ members, (ofList cs).toJson.sorted = .object members ∧ (members.map (·.1)).Pairwise (· < ·) ∧
      (∀ field, field ∈ members.map (·.1) ↔ ∃ c ∈ cs, c.field = field) ∧
      ∀ m ∈ members, ∃ items, m.2 = .array items ∧
        items.mapM Condition.ofJson? = some ((cs.filter (·.field = m.1)).map Clause.condition) := by
  have hkeys : ((ofList cs).groups.map fun g => (g.1, Json.array (g.2.map fun c => c.toJson.sorted))).map (·.1) =
      (ofList cs).fields := List.map_map
  have hnodup : (ofList cs).fields.Nodup := nodup_fields cs
  rw [← hkeys] at hnodup
  have hperm := Json.sortMembers_perm hnodup
  refine ⟨_, sorted_toJson cs, Json.pairwise_sortMembers _, fun field => ?_, fun m hm => ?_⟩
  · rw [(hperm.map _).mem_iff, hkeys, mem_fields]
  · obtain ⟨g, hg, rfl⟩ := List.mem_map.mp (hperm.mem_iff.mp hm)
    refine ⟨_, rfl, ?_⟩
    rw [(snd_of_mem_groups hg).1]
    exact mapM_map_some fun c hc => Clause.ofJson?_sorted (h c (List.mem_filter.mp hc).1)

theorem whole_toJson (h : ∀ c ∈ cs, ∀ v ∈ c.value, v.Whole) : (ofList cs).toJson.Whole := by
  refine .object fun m hm => ?_
  obtain ⟨g, hg, rfl⟩ := List.mem_map.mp hm
  refine .array fun j hj => ?_
  obtain ⟨c, hc, rfl⟩ := List.mem_map.mp hj
  rw [(snd_of_mem_groups hg).1] at hc
  exact c.whole_toJson (h c (List.mem_filter.mp hc).1)

theorem nesting_toJson {depth : Nat} (h : ∀ c ∈ cs, ∀ v ∈ c.value, v.nesting + 3 ≤ depth) (hdepth : 4 ≤ depth) :
    (ofList cs).toJson.nesting ≤ depth := by
  have hmembers : Json.nestingMembers ((ofList cs).groups.map fun g => (g.1, .array (g.2.map Clause.toJson))) ≤
      depth - 1 := by
    refine Json.nestingMembers_le.mpr fun m hm => ?_
    obtain ⟨g, hg, rfl⟩ := List.mem_map.mp hm
    have hitems : Json.nestingItems (g.2.map Clause.toJson) ≤ depth - 2 := by
      refine Json.nestingItems_le.mpr fun j hj => ?_
      obtain ⟨c, hc, rfl⟩ := List.mem_map.mp hj
      rw [(snd_of_mem_groups hg).1] at hc
      refine Clause.nesting_toJson (fun v hv => ?_) (by omega)
      have := h c (List.mem_filter.mp hc).1 v hv
      omega
    rw [Json.nesting]
    omega
  rw [toJson, Json.nesting]
  exact (Nat.add_le_add_right hmembers 1).trans (by omega)

def bare (s : Criteria) : Criteria := ⟨s.groups.map fun g => (g.1, g.2.map Clause.bare)⟩

/-- Criteria with one text are the same but for kinds and targets, down to the order of their fields. -/
theorem bare_eq_of_render {ds : List Clause} (hcs : ∀ c ∈ cs, ∀ v ∈ c.value, v.Whole ∧ v.InOrder)
    (hds : ∀ d ∈ ds, ∀ v ∈ d.value, v.Whole ∧ v.InOrder) (h : (ofList cs).render = (ofList ds).render) :
    (ofList cs).bare = (ofList ds).bare := by
  have hjson := Json.render_inj (whole_toJson fun c hc v hv => (hcs c hc v hv).1)
    (whole_toJson fun d hd v hv => (hds d hd v hv).1) h
  refine congrArg Criteria.mk (Json.map_eq_of_mem (Json.object.inj hjson) fun g hg g' hg' hsame => ?_)
  obtain ⟨hfield, hclauses⟩ := Prod.mk.inj hsame
  refine Prod.ext hfield (Json.map_eq_of_mem (Json.array.inj hclauses) fun c hc d hd hcd => ?_)
  rw [(snd_of_mem_groups hg).1, List.mem_filter, decide_eq_true_iff] at hc
  rw [(snd_of_mem_groups hg').1, List.mem_filter, decide_eq_true_iff] at hd
  exact Clause.bare_eq (hc.2.trans (hfield.trans hd.2.symm)) (Clause.condition_eq_of_toJson
    (fun v hv => (hcs c hc.1 v hv).2) (fun v hv => (hds d hd.1 v hv).2) hcd)

theorem isEmpty_ofList : (ofList cs).isEmpty ↔ cs = [] := by
  constructor
  · intro h
    cases cs with
    | nil => rfl
    | cons c cs =>
      have hfind := find?_ofList c.field (c :: cs)
      rw [List.isEmpty_iff.mp h, if_neg (by simp)] at hfind
      cases hfind
  · rintro rfl
    rfl

end Criteria

namespace Query

variable {calls : List Call} {pairs : List (String × String)}

/-- No value of a clause has a double, and its objects have their keys in order. -/
def Plain (calls : List Call) : Prop :=
  ∀ c ∈ calls.flatMap Call.clauses, ∀ v ∈ c.value, v.Whole ∧ v.InOrder

theorem filter_options_search (q : Query) : q.options.filter (·.1 = "search") = [] := by
  simp [options, List.filter_append, filter_option, filter_unless]

theorem not_isEmpty (h : calls.flatMap Call.clauses ≠ []) : (ofCalls calls).criteria.isEmpty ≠ true := by
  rw [criteria_ofCalls]
  exact mt Criteria.isEmpty_ofList.mp h

theorem compile_ok (h : (ofCalls calls).compile = .ok pairs) :
    (ofCalls calls).checked = .ok (ofCalls calls).criteria ∧
      pairs = (if (ofCalls calls).criteria.isEmpty then [] else [("search", (ofCalls calls).criteria.render)]) ++
        (ofCalls calls).options.map fun (k, v) => (k, optionText v) := by
  obtain ⟨s, hs, hpairs⟩ := except_bind_ok.mp h
  obtain ⟨-, rfl⟩ := checked_eq_ok.mp hs
  exact ⟨hs, (Except.ok.inj hpairs).symm⟩

theorem head?_compile (h : (ofCalls calls).compile = .ok pairs) (hclauses : calls.flatMap Call.clauses ≠ []) :
    pairs.head? = some ("search", (ofCalls calls).criteria.render) := by
  rw [(compile_ok h).2, if_neg (not_isEmpty hclauses)]
  rfl

theorem render_of_mem {text : String} (h : (ofCalls calls).compile = .ok pairs) (htext : ("search", text) ∈ pairs) :
    text = (ofCalls calls).criteria.render := by
  rw [(compile_ok h).2] at htext
  obtain hmem | hmem := List.mem_append.mp htext
  · split at hmem
    · cases hmem
    · exact (Prod.mk.inj (List.mem_singleton.mp hmem)).2
  · obtain ⟨o, ho, heq⟩ := List.mem_map.mp hmem
    have hfilter : o ∈ (ofCalls calls).options.filter (·.1 = "search") :=
      List.mem_filter.mpr ⟨ho, decide_eq_true (Prod.mk.inj heq).1⟩
    rw [filter_options_search] at hfilter
    cases hfilter

theorem compileBody_search (h : (ofCalls calls).compile = .ok pairs) (hclauses : calls.flatMap Call.clauses ≠ []) :
    ∃ body, (ofCalls calls).compileBody = .ok body ∧
      body.get? "search" = some (.string (ofCalls calls).criteria.render) := by
  refine ⟨_, except_bind_ok.mpr ⟨_, (compile_ok h).1, rfl⟩, ?_⟩
  rw [if_neg (not_isEmpty hclauses), Json.ofMembers, Json.get?, Json.member?_sortMembers, List.filter_append,
    filter_options_search]
  rfl

theorem criteria_round_trip (h : (ofCalls calls).compile = .ok pairs) (hclauses : calls.flatMap Call.clauses ≠ [])
    (hplain : Plain calls) :
    ∃ text members, pairs.head? = some ("search", text) ∧
      (∃ body, (ofCalls calls).compileBody = .ok body ∧ body.get? "search" = some (.string text)) ∧
      (∀ depth, 4 ≤ depth → (∀ c ∈ calls.flatMap Call.clauses, ∀ v ∈ c.value, v.nesting + 3 ≤ depth) →
        Json.readWithin? depth text = some (.object members)) ∧
      (members.map (·.1)).Pairwise (· < ·) ∧
      (∀ field, field ∈ members.map (·.1) ↔ ∃ c ∈ calls.flatMap Call.clauses, c.field = field) ∧
      (∀ m ∈ members, ∃ items, m.2 = .array items ∧ items.mapM Condition.ofJson? =
        some (((calls.flatMap Call.clauses).filter (·.field = m.1)).map Clause.condition)) ∧
      ∀ calls' pairs', (ofCalls calls').compile = .ok pairs' → Plain calls' → ("search", text) ∈ pairs' →
        (ofCalls calls).criteria.bare = (ofCalls calls').criteria.bare := by
  obtain ⟨members, hmembers, hkeys, hmem, hitems⟩ := Criteria.members_sorted_toJson fun c hc v hv => (hplain c hc v hv).2
  refine ⟨(ofCalls calls).criteria.render, members, head?_compile h hclauses, compileBody_search h hclauses,
    fun depth hdepth hnesting => ?_, hkeys, hmem, hitems, fun calls' pairs' h' hplain' htext => ?_⟩
  · rw [criteria_ofCalls, ← hmembers]
    exact Json.readWithin?_render (Criteria.whole_toJson fun c hc v hv => (hplain c hc v hv).1)
      (Criteria.nesting_toJson hnesting hdepth)
  · have hrender := render_of_mem h' htext
    rw [criteria_ofCalls, criteria_ofCalls] at hrender ⊢
    exact Criteria.bare_eq_of_render hplain hplain' hrender

/-- A value of null is told apart from no value. -/
theorem null_told_from_absent :
    ∃ text members items,
      (ofCalls [.enabled .equal true, .raw "sku" "=" (some .null) .none, .raw "sku" "=" none .none]).compile =
        .ok [("search", text)] ∧
      Json.read? text = some (.object members) ∧ ("sku", .array items) ∈ members ∧
      items.mapM Condition.ofJson? = some [⟨.equal, some .null, .none⟩, ⟨.equal, none, .none⟩] := by
  have hvalues : ∀ c ∈ [Call.enabled .equal true, .raw "sku" "=" (some .null) .none,
      .raw "sku" "=" none .none].flatMap Call.clauses, ∀ v ∈ c.value, v = .bool true ∨ v = .null := by
    intro c (hc : c ∈ [.make "enabled" .enabled .property .equal (.bool true),
      ⟨"sku", .any, .raw, .equal, some .null, .none⟩, ⟨"sku", .any, .raw, .equal, none, .none⟩]) v hv
    simp only [List.mem_cons, List.not_mem_nil, or_false] at hc
    obtain rfl | rfl | rfl := hc
    · exact .inl (Option.some.inj hv).symm
    · exact .inr (Option.some.inj hv).symm
    · cases hv
  have hcompile : (ofCalls [.enabled .equal true, .raw "sku" "=" (some .null) .none,
      .raw "sku" "=" none .none]).compile = .ok [("search", _)] := rfl
  obtain ⟨text, members, hhead, -, hread, -, hkeys, hitems, -⟩ := criteria_round_trip hcompile (by decide)
    fun c hc v hv => by
      obtain rfl | rfl := hvalues c hc v hv
      · exact ⟨.bool _, .bool _⟩
      · exact ⟨.null, .null⟩
  obtain ⟨m, hm, hfield⟩ := List.mem_map.mp ((hkeys "sku").mpr (by decide))
  obtain ⟨items, hmembers, hitems⟩ := hitems m hm
  refine ⟨text, members, items, ?_, (Json.read?_eq text).trans (hread _ (by decide) fun c hc v hv => ?_), ?_, ?_⟩
  · rw [hcompile]
    exact congrArg (Except.ok [·]) (Option.some.inj hhead)
  · obtain rfl | rfl := hvalues c hc v hv <;> decide
  · rw [← hfield, ← hmembers]
    exact hm
  · rw [hitems, hfield]
    rfl

end Query

end CatalogClient
