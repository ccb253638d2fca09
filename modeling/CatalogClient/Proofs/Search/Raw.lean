import CatalogClient.Proofs.Search.RoundTrip
import CatalogClient.Proofs.WireToken
/-!
Clauses that are given with a text for their operator. A text that spells an operator stands in the criteria as the
operator's token, whatever the field, the value and the context. Any other text makes the search fail, on its field.
-/

namespace CatalogClient

namespace Criteria

/-- A clause stands under its field, behind those of the same field that came before it. -/
theorem placed_toJson (before : List Clause) (c : Clause) (after : List Clause) :
    ∃ members items, (ofList (before ++ c :: after)).toJson = .object members ∧ (c.field, .array items) ∈ members ∧
      items[(before.filter (·.field = c.field)).length]? = some c.toJson := by
  have hfilter : (before ++ c :: after).filter (·.field = c.field) =
      before.filter (·.field = c.field) ++ c :: after.filter (·.field = c.field) := by simp
  have hfind := find?_ofList c.field (before ++ c :: after)
  rw [hfilter, if_neg (by simp)] at hfind
  refine ⟨_, _, rfl, List.mem_map.mpr ⟨_, List.mem_of_find?_eq_some hfind, rfl⟩, ?_⟩
  simp

end Criteria

namespace Query

variable {before after : List Call} {field text : String} {value : Option Json} {context : Context} {op : Operator}

namespace Call

/-- Nothing is asked of a clause that is given as it is, but that its operator is known. -/
theorem valid_raw (h : WireToken.parse? text = some op) : (raw field text value context).Valid where
  named := by
    rintro _ ⟨⟩
    exact Operator.parse?_isSome.mp (Option.isSome_of_mem h)
  lawful := by
    rw [clauses_raw, h]
    intro c hc htarget
    cases List.mem_singleton.mp hc
    exact absurd rfl htarget

theorem onto_raw_token (h : WireToken.parse? text = some op) (q : Query) :
    (raw field text value context).onto q = (raw field op.token value context).onto q := by
  have htoken : WireToken.parse? op.token = some op := Operator.tokens_distinct.unambiguous.undone op
  simp only [onto, Query.raw, h, htoken]

end Call

/-- A search with a call between others. -/
def amid (before after : List Call) (call : Call) : Query := ofCalls (before ++ call :: after)

theorem amid_raw_token (h : WireToken.parse? text = some op) :
    amid before after (.raw field text value context) = amid before after (.raw field op.token value context) := by
  simp only [amid, ofCalls, List.foldl_append, List.foldl_cons, Call.onto_raw_token h]

theorem unknown_amid (before after : List Call) (call : Call) :
    (amid before after call).unknown = (ofCalls before).unknown ++ call.strays ++ after.flatMap Call.strays := by
  rw [amid, unknown_ofCalls, unknown_ofCalls, List.flatMap_append, List.flatMap_cons, List.append_assoc]

theorem compile_amid_raw (h : WireToken.parse? text = some op) (hvalid : ∀ call ∈ before ++ after, call.Valid) :
    ∃ pairs members items, (amid before after (.raw field text value context)).compile = .ok pairs ∧
      pairs.head? = some ("search", (Json.object members).render) ∧ (field, .array items) ∈ members ∧
      items[((before.flatMap Call.clauses).filter (·.field = field)).length]? =
        some (Clause.toJson ⟨field, .any, .raw, op, value, context⟩) := by
  have hall : ∀ call ∈ before ++ .raw field text value context :: after, call.Valid := by
    intro call hcall
    obtain rfl | hcall := List.mem_cons.mp (List.perm_middle.mem_iff.mp hcall)
    · exact Call.valid_raw h
    · exact hvalid call hcall
  have hclauses : (before ++ .raw field text value context :: after).flatMap Call.clauses =
      before.flatMap Call.clauses ++ ⟨field, .any, .raw, op, value, context⟩ :: after.flatMap Call.clauses := by
    rw [List.flatMap_append, List.flatMap_cons, Call.clauses_raw, h]
    rfl
  obtain ⟨pairs, hcompile⟩ : ∃ pairs, (amid before after (.raw field text value context)).compile = .ok pairs :=
    ⟨_, except_bind_ok.mpr ⟨_, checked_eq_ok.mpr ⟨hall, rfl⟩, rfl⟩⟩
  have hhead := head?_compile hcompile (by simp [hclauses])
  obtain ⟨members, items, hmembers, hfield, hitem⟩ := Criteria.placed_toJson (before.flatMap Call.clauses)
    ⟨field, .any, .raw, op, value, context⟩ (after.flatMap Call.clauses)
  rw [criteria_ofCalls, hclauses, Criteria.render, hmembers] at hhead
  exact ⟨pairs, members, items, hcompile, hhead, hfield, hitem⟩

theorem compile_of_unknown {q : Query} {more : List (String × String)} (h : q.unknown = (field, text) :: more) :
    q.compile = .error (.invalidField field ("unknown search operator '" ++ text ++ "'")) := by
  rw [compile_eq_error, checked, h]

/-- A text that is no operator makes the search fail, if not for itself then for one before it. -/
theorem compile_amid_stray (h : WireToken.parse? (α := Operator) text = none) (before after : List Call) :
    (∃ e, (amid before after (.raw field text value context)).compile = .error e) ∧
      ((ofCalls before).unknown = [] → (amid before after (.raw field text value context)).compile =
        .error (.invalidField field ("unknown search operator '" ++ text ++ "'"))) := by
  have hunknown := unknown_amid before after (.raw field text value context)
  rw [Call.strays_raw, h] at hunknown
  constructor
  · cases hbefore : (ofCalls before).unknown with
    | nil =>
      rw [hbefore] at hunknown
      exact ⟨_, compile_of_unknown hunknown⟩
    | cons stray strays =>
      rw [hbefore] at hunknown
      exact ⟨_, compile_of_unknown hunknown⟩
  · intro hbefore
    rw [hbefore] at hunknown
    exact compile_of_unknown hunknown

/-- Texts are read as the methods and as the operators that they spell, up to the case of letters and to blanks around
them. In a clause that is given as it is, a text that spells an operator is as good as its token, which then stands in
the criteria. With any other text the search fails, and the first such text is named with its field. -/
theorem tokens_unambiguous :
    WireToken.Unambiguous Method ∧ WireToken.Unambiguous Operator ∧
    ∀ (before after : List Call) (field text : String) (value : Option Json) (context : Context),
      (∀ op : Operator, Text.Spells text op.token →
        amid before after (.raw field text value context) = amid before after (.raw field op.token value context) ∧
        ((∀ call ∈ before ++ after, call.Valid) → ∃ pairs members items item,
          (amid before after (.raw field text value context)).compile = .ok pairs ∧
          pairs.head? = some ("search", (Json.object members).render) ∧ (field, .array items) ∈ members ∧
          items[((before.flatMap Call.clauses).filter (·.field = field)).length]? = some item ∧
          item = Clause.toJson ⟨field, .any, .raw, op, value, context⟩ ∧
          item.get? "operator" = some (.string op.token))) ∧
      ((∀ op : Operator, ¬ Text.Spells text op.token) →
        (∃ e, (amid before after (.raw field text value context)).compile = .error e) ∧
        ((∀ call ∈ before, ∀ t ∈ call.operatorText?, ∃ op : Operator, Text.Spells t op.token) →
          (amid before after (.raw field text value context)).compile =
            .error (.invalidField field ("unknown search operator '" ++ text ++ "'")))) := by
  have hread := Operator.tokens_distinct.unambiguous
  refine ⟨Method.tokens_distinct.unambiguous, hread, fun before after field text value context =>
    ⟨fun op hspells => ?_, fun hstray => ?_⟩⟩
  · have hparse := (hread.spelled text op).mpr hspells
    refine ⟨amid_raw_token hparse, fun hvalid => ?_⟩
    obtain ⟨pairs, members, items, hpairs, hhead, hfield, hitem⟩ := compile_amid_raw hparse hvalid
    exact ⟨pairs, members, items, _, hpairs, hhead, hfield, hitem, rfl, rfl⟩
  · have hparse : WireToken.parse? (α := Operator) text = none :=
      Option.eq_none_iff_forall_ne_some.mpr fun op h => hstray op ((hread.spelled text op).mp h)
    obtain ⟨hfails, hfirst⟩ := compile_amid_stray hparse before after
    refine ⟨hfails, fun hbefore => hfirst (unknown_eq_nil.mpr fun call hcall t ht => ?_)⟩
    obtain ⟨op, hspells⟩ := hbefore call hcall t ht
    exact Operator.parse?_isSome.mp (Option.isSome_of_mem ((hread.spelled t op).mpr hspells))

/-- The first text spells an operator, behind an em space and before a line feed. The second has a long s, which is
another case of S, but not within ASCII. -/
theorem tokens_unambiguous_spaced :
    (∃ pairs members items item,
      (amid [.enabled .equal true] [] (.raw "family" "\u2003not In\n" none .none)).compile = .ok pairs ∧
      pairs.head? = some ("search", (Json.object members).render) ∧ ("family", .array items) ∈ members ∧
      items[0]? = some item ∧ item.get? "operator" = some (.string "NOT IN")) ∧
    (amid [.enabled .isIn true] [.raw "sku" "" none .none] (.raw "sku" "ſtarts with" none .none)).compile =
      .error (.invalidField "sku" "unknown search operator 'ſtarts with'") := by
  obtain ⟨-, hread, hraw⟩ := tokens_unambiguous
  constructor
  · have hspells := (hread.spelled "\u2003not In\n" .notIn).mp (by decide +kernel)
    have hchecked : (ofCalls [.enabled .equal true]).checked = .ok (ofCalls [.enabled .equal true]).criteria := rfl
    obtain ⟨-, hcompiles⟩ := (hraw [.enabled .equal true] [] "family" "\u2003not In\n" none .none).1 .notIn hspells
    obtain ⟨pairs, members, items, item, hpairs, hhead, hfield, hitem, -, hoperator⟩ :=
      hcompiles (checked_eq_ok.mp hchecked).1
    exact ⟨pairs, members, items, item, hpairs, hhead, hfield, hitem, hoperator⟩
  · have hnone : WireToken.parse? (α := Operator) "ſtarts with" = none := by decide +kernel
    have hstray (op : Operator) : ¬ Text.Spells "ſtarts with" op.token := fun h => by
      cases hnone.symm.trans ((hread.spelled _ op).mpr h)
    obtain ⟨-, hfirst⟩ := (hraw [.enabled .isIn true] [.raw "sku" "" none .none] "sku" _ none .none).2 hstray
    refine hfirst fun call hcall t ht => ?_
    cases List.mem_singleton.mp hcall
    exact absurd ht (Option.not_mem_none t)

end Query

end CatalogClient
