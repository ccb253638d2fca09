import CatalogClient.Proofs.Search.RoundTrip
/-!
The two forms of a search: the parameters of a query and the object of a body. They fail together and say the
same under the same keys, the one in texts and the other in values.
-/

namespace CatalogClient

namespace Query

/-- A key of a search, with what the search says under it. -/
inductive Member (q : Query) : String → Json → Prop
  | criteria (h : q.criteria.isEmpty = false) : q.Member "search" (.string q.criteria.render)
  | searchLocale {locale : String} (h : q.searchLocale = some locale) : q.Member "search_locale" (.string locale)
  | searchScope {scope : String} (h : q.searchScope = some scope) : q.Member "search_scope" (.string scope)
  | attributes (h : q.attributes ≠ []) : q.Member "attributes" (strings q.attributes)
  | locales (h : q.locales ≠ []) : q.Member "locales" (strings q.locales)
  | scope {scope : String} (h : q.scope = some scope) : q.Member "scope" (.string scope)
  | page {number : Nat} (h : q.page = some number) : q.Member "page" (.ofNat number)
  | limit {size : Nat} (h : q.limit = some size) : q.Member "limit" (.ofNat size)
  | count {counted : Bool} (h : q.count = some counted) : q.Member "with_count" (.bool counted)

/-- The keys that a search may have, in the order of its parameters. -/
def keyOrder : List String :=
  ["search", "search_locale", "search_scope", "attributes", "locales", "scope", "page", "limit", "with_count"]

/-- The text of a parameter that stands for a value. -/
inductive Spells : Json → String → Prop
  | string (s : String) : Spells (.string s) s
  | number (n : Json.Number) : Spells (.number n) (Json.number n).render
  | bool (b : Bool) : Spells (.bool b) (Json.bool b).render
  | codes (cs : List String) : Spells (strings cs) (",".intercalate cs)

theorem optionText_strings (cs : List String) : optionText (strings cs) = ",".intercalate cs := by
  rw [strings, optionText, List.filterMap_map]
  exact congrArg _ (List.filterMap_some (l := cs))

variable {q : Query} {key text : String} {v : Json}

theorem Spells.text_eq (h : Spells v text) : text = optionText v := by
  cases h with
  | codes cs => exact (optionText_strings cs).symm
  | _ => rfl

/-- Whatever a search says has one text. -/
theorem Member.spells_iff (h : q.Member key v) : Spells v text ↔ text = optionText v := by
  refine ⟨Spells.text_eq, ?_⟩
  rintro rfl
  cases h with
  | attributes | locales => exact optionText_strings _ ▸ .codes _
  | page | limit => exact .number _
  | count => exact .bool _
  | _ => exact .string _

theorem Member.criteria_text (h : q.Member key v) (hkey : key = "search") : ∃ s, v = .string s := by
  cases h with
  | criteria => exact ⟨_, rfl⟩
  | _ => exact absurd hkey (by decide)

/-- The members of a search before they are put in the order of their keys. -/
def entries (q : Query) : List (String × Json) :=
  (if q.criteria.isEmpty then [] else [("search", .string q.criteria.render)]) ++ q.options

theorem mem_entries : (key, v) ∈ q.entries ↔ q.Member key v := by
  have hoption {α : Type} {o : Option α} {k : String} {g : α → Json} :
      (key, v) ∈ (o.map fun a => (k, g a)).toList ↔ ∃ a, o = some a ∧ k = key ∧ g a = v := by
    simp [Option.mem_toList]
  have hunless {c : Prop} [Decidable c] {k : String} {j : Json} :
      (key, v) ∈ (if c then [] else [(k, j)]) ↔ ¬ c ∧ k = key ∧ j = v := by
    split <;> simp_all [eq_comm]
  simp only [entries, options, List.mem_append, hoption, hunless]
  constructor
  · rintro (⟨h, rfl, rfl⟩ | ((((((⟨_, h, rfl, rfl⟩ | ⟨_, h, rfl, rfl⟩) | ⟨h, rfl, rfl⟩) | ⟨h, rfl, rfl⟩) |
      ⟨_, h, rfl, rfl⟩) | ⟨_, h, rfl, rfl⟩) | ⟨_, h, rfl, rfl⟩) | ⟨_, h, rfl, rfl⟩)
    · exact .criteria (Bool.eq_false_iff.mpr h)
    · exact .searchLocale h
    · exact .searchScope h
    · exact .attributes h
    · exact .locales h
    · exact .scope h
    · exact .page h
    · exact .limit h
    · exact .count h
  · intro h
    cases h <;> simp_all

/-- The keys of a search are among the known ones and in their order. -/
theorem keys_entries (q : Query) : (q.entries.map (·.1)).Sublist keyOrder := by
  have hoption {α : Type} (o : Option α) (k : String) (g : α → Json) :
      ((o.map fun a => (k, g a)).toList.map (·.1)).Sublist [k] := by
    cases o <;> simp
  have hunless (c : Prop) [Decidable c] (k : String) (j : Json) :
      ((if c then [] else [(k, j)]).map (·.1)).Sublist [k] := by
    split <;> simp
  have hsplit : keyOrder = ["search"] ++ (["search_locale"] ++ ["search_scope"] ++ ["attributes"] ++
      ["locales"] ++ ["scope"] ++ ["page"] ++ ["limit"] ++ ["with_count"]) := rfl
  rw [hsplit]
  simp only [entries, options, List.map_append]
  repeat' apply List.Sublist.append
  all_goals first | exact hoption .. | exact hunless ..

theorem nodup_keys_entries (q : Query) : (q.entries.map (·.1)).Nodup := q.keys_entries.nodup (by decide)

theorem criteria_of_checked {c : Criteria} (h : q.checked = .ok c) : c = q.criteria := by
  unfold checked at h
  split at h
  · cases h
  · obtain ⟨-, -, h⟩ := except_bind_ok.mp h
    exact (Except.ok.inj h).symm

theorem compile_entries {c : Criteria} (h : q.checked = .ok c) :
    q.compile = .ok (q.entries.map fun m => (m.1, optionText m.2)) := by
  obtain rfl := criteria_of_checked h
  refine except_bind_ok.mpr ⟨_, h, congrArg Except.ok ?_⟩
  rw [entries, List.map_append]
  split <;> rfl

theorem compileBody_entries {c : Criteria} (h : q.checked = .ok c) :
    q.compileBody = .ok (Json.ofMembers q.entries) := by
  obtain rfl := criteria_of_checked h
  exact except_bind_ok.mpr ⟨_, h, rfl⟩

/-- The two forms of a search fail together. Otherwise both have what the search says and nothing else, the body
each value under its key and the parameters its text, in the order of the keys. -/
theorem forms_agree (q : Query) :
    (∃ f, q.compile = .error f ∧ q.compileBody = .error f) ∨
      ∃ pairs members, q.compile = .ok pairs ∧ q.compileBody = .ok (.object members) ∧
        (pairs.map (·.1)).Sublist keyOrder ∧ (pairs.map (·.1)).Nodup ∧ (members.map (·.1)).Nodup ∧
        (∀ key, key ∈ pairs.map (·.1) ↔ key ∈ members.map (·.1)) ∧
        (∀ key v, (key, v) ∈ members ↔ q.Member key v) ∧
        (∀ key text, (key, text) ∈ pairs ↔ ∃ v, (key, v) ∈ members ∧ Spells v text) ∧
        ∀ text, ("search", text) ∈ pairs ↔ ("search", .string text) ∈ members := by
  cases hchecked : q.checked with
  | error f => exact .inl ⟨f, by rw [compile, hchecked]; rfl, by rw [compileBody, hchecked]; rfl⟩
  | ok c =>
    have hmember (m : String × Json) : m ∈ Json.sortMembers q.entries ↔ q.Member m.1 m.2 :=
      (Json.sortMembers_perm q.nodup_keys_entries).mem_iff.trans mem_entries
    have hpair (key text : String) : (key, text) ∈ q.entries.map (fun m => (m.1, optionText m.2)) ↔
        ∃ v, (key, v) ∈ Json.sortMembers q.entries ∧ Spells v text := by
      simp only [hmember, List.mem_map, Prod.exists, Prod.mk.injEq, mem_entries]
      constructor
      · rintro ⟨key, v, hm, rfl, rfl⟩
        exact ⟨v, hm, hm.spells_iff.mpr rfl⟩
      · rintro ⟨v, hm, hspells⟩
        exact ⟨key, v, hm, rfl, hspells.text_eq.symm⟩
    have hkeys : (q.entries.map fun m => (m.1, optionText m.2)).map (·.1) = q.entries.map (·.1) := List.map_map ..
    refine .inr ⟨_, _, compile_entries hchecked, compileBody_entries hchecked, ?_, ?_, ?_, fun key => ?_,
      fun key v => hmember (key, v), hpair, fun text => ?_⟩
    · exact hkeys ▸ q.keys_entries
    · exact hkeys ▸ q.nodup_keys_entries
    · exact (Json.pairwise_sortMembers _).imp fun hlt => ne_of_lt hlt
    · simp only [hkeys, List.mem_map, (Json.sortMembers_perm q.nodup_keys_entries).mem_iff]
    · rw [hpair]
      constructor
      · rintro ⟨v, hv, hspells⟩
        obtain ⟨s, rfl⟩ := ((hmember _).mp hv).criteria_text rfl
        cases hspells
        exact hv
      · exact fun hv => ⟨_, hv, .string text⟩

end Query

end CatalogClient
