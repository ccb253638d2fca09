import CatalogClient.Proofs.Search.Forms
import CatalogClient.Proofs.Search.Grouping
/-!
Which order of the calls of a search matters: that of the calls for clauses, and of the calls that set one option
the last. Where all clauses are valid, the order of calls for different fields shows in the order of the fields
of the criteria and nowhere else.
-/

namespace CatalogClient

namespace Criteria

theorem mem_groups {cs : List Clause} {g : String × List Clause} :
    g ∈ (ofList cs).groups ↔ g.2 = cs.filter (·.field = g.1) ∧ g.2 ≠ [] := by
  refine ⟨snd_of_mem_groups, fun ⟨hg, hne⟩ => List.mem_of_find?_eq_some (p := (·.1 = g.1)) ?_⟩
  rw [find?_ofList, if_neg (hg ▸ hne), ← hg]

/-- The clauses of each field decide the criteria up to the order of the fields. -/
theorem groups_perm {cs ds : List Clause}
    (h : ∀ field, cs.filter (·.field = field) = ds.filter (·.field = field)) :
    (ofList cs).groups.Perm (ofList ds).groups :=
  (List.perm_ext_iff_of_nodup (List.Nodup.of_map _ (nodup_fields cs)) (List.Nodup.of_map _ (nodup_fields ds))).mpr
    fun g => by rw [mem_groups, mem_groups, h]

end Criteria

namespace Query

/-- The options of a search. -/
inductive Setting
  | searchLocale
  | searchScope
  | attributes
  | locales
  | scope
  | page
  | limit
  | count
  deriving DecidableEq

namespace Setting

def all : List Setting := [.searchLocale, .searchScope, .attributes, .locales, .scope, .page, .limit, .count]

/-- What a search says of an option. -/
def said : Setting → Query → List (String × Json)
  | .searchLocale, q => (q.searchLocale.map fun s => ("search_locale", .string s)).toList
  | .searchScope, q => (q.searchScope.map fun s => ("search_scope", .string s)).toList
  | .attributes, q => if q.attributes = [] then [] else [("attributes", strings q.attributes)]
  | .locales, q => if q.locales = [] then [] else [("locales", strings q.locales)]
  | .scope, q => (q.scope.map fun s => ("scope", .string s)).toList
  | .page, q => (q.page.map fun n => ("page", Json.ofNat n)).toList
  | .limit, q => (q.limit.map fun n => ("limit", Json.ofNat n)).toList
  | .count, q => (q.count.map fun b => ("with_count", .bool b)).toList

end Setting

theorem options_eq_said (q : Query) : q.options = Setting.all.flatMap (·.said q) := by
  simp [options, Setting.all, Setting.said]

namespace Call

/-- The option that a call sets. -/
def setting? : Call → Option Setting
  | .searchLocale _ => some .searchLocale
  | .searchScope _ => some .searchScope
  | .attributes _ => some .attributes
  | .locales _ => some .locales
  | .scope _ => some .scope
  | .page _ => some .page
  | .limit _ => some .limit
  | .count _ => some .count
  | _ => none

/-- The field of the clause that a call is for. -/
def field? : Call → Option String
  | .uuid .. => some "uuid"
  | .identifier .. => some "identifier"
  | .categories .. => some "categories"
  | .enabled .. => some "enabled"
  | .completeness .. | .completenessIn .. | .modelCompleteness .. => some "completeness"
  | .family .. => some "family"
  | .groups .. => some "groups"
  | .created .. => some "created"
  | .updated .. => some "updated"
  | .parent .. => some "parent"
  | .qualityScore .. => some "quality_score"
  | .attributeText a .. | .attributeNumber a .. | .attributeSelect a .. | .attributeBoolean a ..
  | .attributeDate a .. | .attributeFile a .. | .attributeEmpty a _ => some a.code
  | .raw field .. => some field
  | .searchLocale _ | .searchScope _ | .attributes _ | .locales _ | .scope _ | .page _ | .limit _ | .count _ => none

variable {call : Call}

theorem setting?_of_field? (h : call.field?.isSome) : call.setting? = none := by
  cases call with
  | searchLocale | searchScope | attributes | locales | scope | page | limit | count => cases h
  | _ => rfl

theorem nothing_of_field? (h : call.field? = none) : call.clauses = [] ∧ call.strays = [] := by
  cases call with
  | searchLocale | searchScope | attributes | locales | scope | page | limit | count => exact ⟨rfl, rfl⟩
  | _ => cases h

theorem field?_of_mem_clauses {c : Clause} (hc : c ∈ call.clauses) : call.field? = some c.field := by
  cases call with
  | raw field operator value context =>
    rw [clauses_raw] at hc
    obtain ⟨op, -, rfl⟩ := Option.map_eq_some_iff.mp (Option.mem_toList.mp hc)
    rfl
  | searchLocale | searchScope | attributes | locales | scope | page | limit | count => cases hc
  | _ =>
    cases List.mem_singleton.mp hc
    rfl

theorem clauses_ne_nil (h : call.field?.isSome) (hvalid : call.Valid) : call.clauses ≠ [] := by
  cases call with
  | raw field operator value context =>
    obtain ⟨op, hparse⟩ := Option.isSome_iff_exists.mp (Operator.parse?_isSome.mpr (hvalid.named operator rfl))
    rw [clauses_raw, hparse]
    exact List.cons_ne_nil _ _
  | searchLocale | searchScope | attributes | locales | scope | page | limit | count => cases h
  | _ => exact List.cons_ne_nil _ _

theorem said_onto_self {s : Setting} (h : call.setting? = some s) (q r : Query) :
    s.said (call.onto q) = s.said (call.onto r) := by
  cases call <;> cases h <;> rfl

theorem said_onto_other {s : Setting} (h : call.setting? ≠ some s) (q : Query) :
    s.said (call.onto q) = s.said q := by
  cases call with
  | raw field operator value context =>
    cases hparse : WireToken.parse? (α := Operator) operator <;> cases s <;> simp only [onto, Query.raw, hparse] <;> rfl
  | _ => cases s <;> first | rfl | exact absurd rfl h

end Call

/-- The call that sets an option for good. -/
def lastCall? (s : Setting) (calls : List Call) : Option Call := (calls.filter (·.setting? = some s)).getLast?

theorem lastCall?_append (s : Setting) (calls : List Call) (call : Call) :
    lastCall? s (calls ++ [call]) = if call.setting? = some s then some call else lastCall? s calls := by
  rw [lastCall?, List.filter_append]
  by_cases h : call.setting? = some s <;> simp [h, lastCall?]

variable {calls calls' : List Call}

theorem said_ofCalls (s : Setting) (calls : List Call) :
    s.said (ofCalls calls) = s.said (((lastCall? s calls).map (·.onto empty)).getD empty) := by
  induction calls using List.reverseRecOn with
  | nil => rfl
  | append_singleton calls call ih =>
    rw [ofCalls, List.foldl_append, List.foldl_cons, List.foldl_nil, lastCall?_append]
    split
    · rename_i h
      exact Call.said_onto_self h ..
    · rename_i h
      rw [Call.said_onto_other h]
      exact ih

theorem options_congr (h : ∀ s, lastCall? s calls = lastCall? s calls') :
    (ofCalls calls).options = (ofCalls calls').options := by
  rw [options_eq_said, options_eq_said]
  exact List.flatMap_congr fun s _ => by rw [said_ofCalls, said_ofCalls, h]

theorem flatMap_filter {α β : Type} {f : α → List β} {p : α → Bool} (h : ∀ a, p a = false → f a = []) (as : List α) :
    (as.filter p).flatMap f = as.flatMap f := by
  induction as with
  | nil => rfl
  | cons a as ih =>
    cases hp : p a with
    | true => rw [List.filter_cons_of_pos hp, List.flatMap_cons, List.flatMap_cons, ih]
    | false => rw [List.filter_cons_of_neg (by simp [hp]), ih, List.flatMap_cons, h a hp, List.nil_append]

theorem filter_clauses (field : String) (calls : List Call) :
    (calls.flatMap Call.clauses).filter (·.field = field) =
      (calls.filter (·.field? = some field)).flatMap Call.clauses := by
  have hown {call : Call} (h : call.field? = some field) : call.clauses.filter (·.field = field) = call.clauses := by
    refine List.filter_eq_self.mpr fun c hc => decide_eq_true (Option.some.inj ?_)
    rw [← Call.field?_of_mem_clauses hc, h]
  have hother {call : Call} (h : call.field? ≠ some field) : call.clauses.filter (·.field = field) = [] := by
    refine List.filter_eq_nil_iff.mpr fun c hc hfield => h ?_
    rw [Call.field?_of_mem_clauses hc, of_decide_eq_true hfield]
  rw [List.filter_flatMap, ← flatMap_filter (p := (·.field? = some field)) fun call h => hother (of_decide_eq_false h)]
  exact List.flatMap_congr fun call hcall => hown (of_decide_eq_true (List.mem_filter.mp hcall).2)

theorem criteria_congr (h : calls.filter (·.field?.isSome) = calls'.filter (·.field?.isSome)) :
    (ofCalls calls).criteria = (ofCalls calls').criteria ∧ (ofCalls calls).unknown = (ofCalls calls').unknown := by
  have hnothing (call : Call) (hfield : call.field?.isSome = false) : call.clauses = [] ∧ call.strays = [] :=
    Call.nothing_of_field? (by simpa using hfield)
  rw [criteria_ofCalls, criteria_ofCalls, unknown_ofCalls, unknown_ofCalls,
    ← flatMap_filter (fun call hcall => (hnothing call hcall).1) calls,
    ← flatMap_filter (fun call hcall => (hnothing call hcall).1) calls',
    ← flatMap_filter (fun call hcall => (hnothing call hcall).2) calls,
    ← flatMap_filter (fun call hcall => (hnothing call hcall).2) calls', h]
  exact ⟨rfl, rfl⟩

theorem compile_congr {q r : Query} (hcriteria : q.criteria = r.criteria) (hunknown : q.unknown = r.unknown)
    (hoptions : q.options = r.options) : q.compile = r.compile ∧ q.compileBody = r.compileBody := by
  have hchecked : q.checked = r.checked := by simp only [checked, hcriteria, hunknown]
  simp only [compile, compileBody, hchecked, hoptions, and_self]

section Move

variable {before between after : List Call} {call : Call} {field : String}

theorem filter_move {p : Call → Bool} (h : p call = true → ∀ other ∈ between, p other = false) :
    (before ++ call :: between ++ after).filter p = (before ++ between ++ call :: after).filter p := by
  simp only [List.filter_append, List.filter_cons]
  split
  · rename_i hcall
    have hnone : between.filter p = [] := List.filter_eq_nil_iff.mpr fun other hother => by simp [h hcall other hother]
    simp [hnone]
  · rfl

theorem mem_move {c : Call} :
    c ∈ before ++ call :: between ++ after ↔ c ∈ before ++ between ++ call :: after := by
  simp only [List.mem_append, List.mem_cons, or_assoc, or_left_comm]

theorem groups_move (hcall : call.field? = some field) (hbetween : ∀ other ∈ between, other.field? ≠ some field) :
    (ofCalls (before ++ call :: between ++ after)).criteria.groups.Perm
      (ofCalls (before ++ between ++ call :: after)).criteria.groups := by
  rw [criteria_ofCalls, criteria_ofCalls]
  refine Criteria.groups_perm fun f => ?_
  rw [filter_clauses, filter_clauses, filter_move fun hf other hother => ?_]
  have hfield : field = f := Option.some.inj (hcall.symm.trans (of_decide_eq_true hf))
  exact decide_eq_false (hfield ▸ hbetween other hother)

theorem options_move (hcall : call.field? = some field) :
    (ofCalls (before ++ call :: between ++ after)).options =
      (ofCalls (before ++ between ++ call :: after)).options := by
  have hnone : call.setting? = none := Call.setting?_of_field? (by simp [hcall])
  refine options_congr fun s => ?_
  rw [lastCall?, lastCall?, filter_move fun h => by simp [hnone] at h]

end Move

theorem forms_of_valid (hvalid : ∀ call ∈ calls, call.Valid) (hsome : ∃ call ∈ calls, call.field?.isSome) :
    (ofCalls calls).compile = .ok (("search", (ofCalls calls).criteria.render) ::
      (ofCalls calls).options.map fun o => (o.1, optionText o.2)) ∧
    (ofCalls calls).compileBody = .ok (Json.ofMembers (("search", .string (ofCalls calls).criteria.render) ::
      (ofCalls calls).options)) := by
  obtain ⟨call, hcall, hfield⟩ := hsome
  have hclauses : calls.flatMap Call.clauses ≠ [] := fun h =>
    Call.clauses_ne_nil hfield (hvalid call hcall) (List.flatMap_eq_nil_iff.mp h call hcall)
  have hchecked : (ofCalls calls).checked = .ok (ofCalls calls).criteria := checked_eq_ok.mpr ⟨hvalid, rfl⟩
  have hentries : (ofCalls calls).entries =
      ("search", .string (ofCalls calls).criteria.render) :: (ofCalls calls).options := by
    rw [entries, if_neg (not_isEmpty hclauses), List.singleton_append]
  rw [compile_entries hchecked, compileBody_entries hchecked, hentries]
  exact ⟨rfl, rfl⟩

theorem compile_rearranged :
    (∀ calls calls' : List Call, calls.filter (·.field?.isSome) = calls'.filter (·.field?.isSome) →
      (∀ s, lastCall? s calls = lastCall? s calls') →
      (ofCalls calls).compile = (ofCalls calls').compile ∧
        (ofCalls calls).compileBody = (ofCalls calls').compileBody) ∧
    ∀ (before between after : List Call) (call : Call) (field : String), call.field? = some field →
      (∀ other ∈ between, other.field? ≠ some field) → (∀ c ∈ before ++ call :: between ++ after, c.Valid) →
      ∃ (members members' : List (String × Json)) (options : List (String × Json)),
        members.Perm members' ∧ (members.map (·.1)).Nodup ∧
        (ofCalls (before ++ call :: between ++ after)).compile =
          .ok (("search", (Json.object members).render) :: options.map fun o => (o.1, optionText o.2)) ∧
        (ofCalls (before ++ between ++ call :: after)).compile =
          .ok (("search", (Json.object members').render) :: options.map fun o => (o.1, optionText o.2)) ∧
        (ofCalls (before ++ call :: between ++ after)).compileBody =
          .ok (Json.ofMembers (("search", .string (Json.object members).render) :: options)) ∧
        (ofCalls (before ++ between ++ call :: after)).compileBody =
          .ok (Json.ofMembers (("search", .string (Json.object members').render) :: options)) := by
  refine ⟨fun calls calls' hclauses hlast => ?_, fun before between after call field hcall hbetween hvalid => ?_⟩
  · obtain ⟨hcriteria, hunknown⟩ := criteria_congr hclauses
    exact compile_congr hcriteria hunknown (options_congr hlast)
  · have hmem : call ∈ before ++ call :: between ++ after := by simp
    obtain ⟨hpairs, hbody⟩ := forms_of_valid hvalid ⟨call, hmem, by simp [hcall]⟩
    obtain ⟨hpairs', hbody'⟩ := forms_of_valid (fun c hc => hvalid c (mem_move.mpr hc))
      ⟨call, mem_move.mp hmem, by simp [hcall]⟩
    rw [← options_move hcall] at hpairs' hbody'
    refine ⟨_, _, _, (groups_move hcall hbetween).map _, ?_, hpairs, hpairs', hbody, hbody'⟩
    rw [List.map_map, criteria_ofCalls]
    exact Criteria.nodup_fields _

/-- The limit is set twice, and the call for enabled products and the limit stand between two calls for families. -/
theorem compile_rearranged_families :
    (ofCalls [.limit 10, .enabled .equal true, .limit 25, .searchLocale "en_US"]).compile =
      (ofCalls [.searchLocale "en_US", .limit 25, .enabled .equal true]).compile ∧
    ∃ (members members' : List (String × Json)) (options : List (String × Json)),
      members.Perm members' ∧
      (ofCalls [.family .isIn ["shirts"], .enabled .equal true, .limit 5,
          .raw "family" "not empty" none .none]).compile =
        .ok (("search", (Json.object members).render) :: options.map fun o => (o.1, optionText o.2)) ∧
      (ofCalls [.enabled .equal true, .limit 5, .family .isIn ["shirts"],
          .raw "family" "not empty" none .none]).compile =
        .ok (("search", (Json.object members').render) :: options.map fun o => (o.1, optionText o.2)) := by
  obtain ⟨hinterleaved, hmoved⟩ := compile_rearranged
  have hvalid : (ofCalls [.family .isIn ["shirts"], .enabled .equal true, .limit 5,
      .raw "family" "not empty" none .none]).checked = .ok _ := rfl
  obtain ⟨members, members', options, hperm, -, hcompile, hcompile', -⟩ :=
    hmoved [] [.enabled .equal true, .limit 5] [.raw "family" "not empty" none .none] (.family .isIn ["shirts"])
      "family" rfl (by simp [Call.field?]) (checked_eq_ok.mp hvalid).1
  exact ⟨(hinterleaved _ _ rfl fun s => by cases s <;> rfl).1, members, members', options, hperm, hcompile, hcompile'⟩

end Query

end CatalogClient
