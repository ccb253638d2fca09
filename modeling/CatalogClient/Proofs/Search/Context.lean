import CatalogClient.Proofs.Search.Validity
/-!
What a valid clause may say of locales. A clause on a property or an attribute has a locale or locales, not both,
and of the properties only the two kinds of completeness know locales. The check of quality scores does not look
at the locales of a clause, so there they may stand beside the locale.
-/

namespace CatalogClient

namespace Clause

variable {c : Clause}

/-- A quality score clause with locales, which its check passes over. -/
structure Overlooked (c : Clause) : Prop where
  target : c.target = .property
  kind : c.kind = .qualityScore
  locales : c.context.locales.isSome

theorem checkContext_of_validate (h : c.validate = .ok ()) : c.checkContext = .ok () := by
  have hcheck : c.check = .ok () := by
    rw [validate] at h
    cases hc : c.check with
    | ok u => rfl
    | error fault => rw [hc] at h; cases h
  by_cases hkind : c.kind = .any
  · rwa [check_raw hkind] at hcheck
  · by_cases hallowed : c.operator ∈ c.kind.operators
    · rw [check_allowed hkind hallowed] at hcheck
      obtain ⟨⟨⟩, -, hcontext⟩ := except_bind_ok.mp hcheck
      exact hcontext
    · rw [check_refused hkind hallowed] at hcheck
      cases hcheck

theorem attribute_locales (htarget : c.target = .attributeValue) (h : c.checkContext = .ok ()) :
    c.context.locales = none := by
  cases hlocales : c.context.locales with
  | none => rfl
  | some ls => simp [checkContext, htarget, hlocales] at h

theorem property_locales (htarget : c.target = .property) (h : c.checkContext = .ok ())
    (hscore : c.kind ≠ .qualityScore) (hlocales : c.context.locales.isSome) :
    (c.kind = .completeness ∨ c.kind = .modelCompleteness) ∧ c.context.locale = none := by
  have hnone : c.context ≠ .none := by
    intro hcontext
    rw [hcontext] at hlocales
    cases hlocales
  cases hkind : c.kind with
  | completeness =>
    refine ⟨.inl rfl, ?_⟩
    cases hscope : c.context.scope <;> cases hlocale : c.context.locale <;>
      simp_all [checkContext]
  | modelCompleteness =>
    refine ⟨.inr rfl, ?_⟩
    cases hscope : c.context.scope <;> cases hlocale : c.context.locale <;>
      simp_all [checkContext]
  | qualityScore => exact absurd hkind hscore
  | _ => simp [checkContext, htarget, hkind, hnone] at h

theorem not_both (htarget : c.target ≠ .raw) (h : c.validate = .ok ()) (hseen : ¬ c.Overlooked) :
    ¬ (c.context.locale.isSome ∧ c.context.locales.isSome) := by
  rintro ⟨hlocale, hlocales⟩
  have hcontext := checkContext_of_validate h
  cases hc : c.target with
  | raw => exact htarget hc
  | attributeValue => simp [attribute_locales hc hcontext] at hlocales
  | property =>
    have hscore : c.kind ≠ .qualityScore := fun hkind => hseen ⟨hc, hkind, hlocales⟩
    simp [(property_locales hc hcontext hscore hlocales).2] at hlocale

/-- Locales make no difference to the check of a quality score. -/
theorem validate_with_locales (htarget : c.target = .property) (hkind : c.kind = .qualityScore)
    (locales : Option (List String)) :
    ({ c with context := { c.context with locales := locales } } : Clause).validate = c.validate := by
  simp [validate, check, checkValue, elements, elementType, checkContext, htarget, hkind]

theorem get?_toJson_locale (c : Clause) : c.toJson.get? "locale" = c.context.locale.map .string := by
  cases hvalue : c.value <;> cases hlocale : c.context.locale <;> cases hscope : c.context.scope <;>
    cases hlocales : c.context.locales <;> simp [toJson, Json.get?, Json.member?, *]

theorem get?_toJson_locales (c : Clause) :
    c.toJson.get? "locales" = c.context.locales.map fun ls => .array (ls.map .string) := by
  cases hvalue : c.value <;> cases hlocale : c.context.locale <;> cases hscope : c.context.scope <;>
    cases hlocales : c.context.locales <;> simp [toJson, Json.get?, Json.member?, *]

end Clause

namespace Criteria

theorem validate_of_mem {s : Criteria} (h : s.validate = .ok ()) {c : Clause} (hc : c ∈ s.clauses) :
    c.validate = .ok () := by
  rw [validate, except_forM_ok] at h
  exact h c hc

/-- A valid clause has a locale or locales, and only on completeness has a property locales, unless it is a
quality score clause whose locales are passed over. These may stand there whatever they are. -/
theorem locale_or_locales (c : Clause) (s : Criteria) :
    (c.target ≠ .raw → c.validate = .ok () → ¬ c.Overlooked →
      ¬ (c.context.locale.isSome ∧ c.context.locales.isSome) ∧
      (c.target = .property → c.context.locales.isSome → c.kind = .completeness ∨ c.kind = .modelCompleteness)) ∧
    (s.validate = .ok () → ∀ members, s.toJson = .object members → ∀ m ∈ members,
      ∃ g ∈ s.groups, m = (g.1, .array (g.2.map Clause.toJson)) ∧
        ∀ d ∈ g.2, d.target ≠ .raw → ¬ d.Overlooked →
          ¬ ((d.toJson.get? "locale").isSome ∧ (d.toJson.get? "locales").isSome)) ∧
    (c.target = .property → c.kind = .qualityScore → c.validate = .ok () → ∀ locales : List String,
      ({ c with context := { c.context with locales := some locales } } : Clause).validate = .ok () ∧
        c.context.locale.isSome) := by
  refine ⟨fun htarget hvalid hseen => ⟨Clause.not_both htarget hvalid hseen, fun hproperty hlocales => ?_⟩,
    fun hs members hmembers m hm => ?_, fun htarget hkind hvalid locales => ⟨?_, ?_⟩⟩
  · have hscore : c.kind ≠ .qualityScore := fun hkind => hseen ⟨hproperty, hkind, hlocales⟩
    exact (Clause.property_locales hproperty (Clause.checkContext_of_validate hvalid) hscore hlocales).1
  · cases hmembers
    obtain ⟨g, hg, rfl⟩ := List.mem_map.mp hm
    refine ⟨g, hg, rfl, fun d hd htarget hseen => ?_⟩
    rw [Clause.get?_toJson_locale, Clause.get?_toJson_locales, Option.isSome_map, Option.isSome_map]
    exact Clause.not_both htarget (validate_of_mem hs (List.mem_flatMap.mpr ⟨g, hg, hd⟩)) hseen
  · rw [Clause.validate_with_locales htarget hkind, hvalid]
  · have hcontext := Clause.checkContext_of_validate hvalid
    cases hlocale : c.context.locale with
    | none => simp [Clause.checkContext, htarget, hkind, hlocale] at hcontext
    | some l => rfl

end Criteria

/-- Product models of which all variants are complete, in two locales of a channel. -/
def Clause.complete : Clause :=
  ⟨"completeness", .modelCompleteness, .property, .allComplete, none, ⟨none, some "ecommerce", some ["en_US", "fr_FR"]⟩⟩

def Clause.scored (locales : Option (List String)) : Clause :=
  ⟨"quality_score", .qualityScore, .property, .isIn, some (.array [.string "A"]),
    ⟨some "en_US", some "ecommerce", locales⟩⟩

namespace Criteria

theorem locale_or_locales_complete :
    (¬ (Clause.complete.context.locale.isSome ∧ Clause.complete.context.locales.isSome) ∧
      (Clause.complete.kind = .completeness ∨ Clause.complete.kind = .modelCompleteness)) ∧
    (∃ members, (ofList [.complete, .scored none]).toJson = .object members ∧ ∀ m ∈ members,
      ∃ g ∈ (ofList [.complete, .scored none]).groups, m = (g.1, .array (g.2.map Clause.toJson)) ∧
        ∀ c ∈ g.2, ¬ ((c.toJson.get? "locale").isSome ∧ (c.toJson.get? "locales").isSome)) ∧
    (Clause.scored (some ["fr_FR"])).validate = .ok () := by
  have hcomplete : Clause.complete.target ≠ .raw ∧ ¬ Clause.complete.Overlooked :=
    ⟨by decide, fun h => absurd h.kind (by decide)⟩
  have hscored : (Clause.scored none).target ≠ .raw ∧ ¬ (Clause.scored none).Overlooked :=
    ⟨by decide, fun h => absurd h.locales (by decide)⟩
  obtain ⟨hclause, hcriteria, -⟩ := locale_or_locales .complete (ofList [.complete, .scored none])
  obtain ⟨-, -, hscore⟩ := locale_or_locales (.scored none) empty
  obtain ⟨hboth, hkind⟩ := hclause hcomplete.1 rfl hcomplete.2
  refine ⟨⟨hboth, hkind rfl rfl⟩, ⟨_, rfl, fun m hm => ?_⟩, (hscore rfl rfl rfl _).1⟩
  obtain ⟨g, hg, hmember, hitems⟩ := hcriteria rfl _ rfl m hm
  refine ⟨g, hg, hmember, fun c hc => ?_⟩
  have hmem : c ∈ [Clause.complete, .scored none] := mem_clauses_ofList.mp (List.mem_flatMap.mpr ⟨g, hg, hc⟩)
  simp only [List.mem_cons, List.not_mem_nil, or_false] at hmem
  obtain rfl | rfl := hmem
  · exact hitems _ hc hcomplete.1 hcomplete.2
  · exact hitems _ hc hscored.1 hscored.2

/-- A quality score in one locale and in others. -/
theorem score_takes_both :
    (Clause.scored (some ["fr_FR"])).target = .property ∧ (Clause.scored (some ["fr_FR"])).validate = .ok () ∧
      (Clause.scored (some ["fr_FR"])).context.locale.isSome ∧
      (Clause.scored (some ["fr_FR"])).context.locales.isSome ∧
      (Clause.scored (some ["fr_FR"])).kind ∉ [.completeness, .modelCompleteness] ∧
      (ofList [.scored (some ["fr_FR"])]).validate = .ok () ∧
      (ofList [.scored (some ["fr_FR"])]).render =
        "\x7b\"quality_score\":[\x7b\"operator\":\"IN\",\"value\":[\"A\"],\"locale\":\"en_US\"," ++
          "\"scope\":\"ecommerce\",\"locales\":[\"fr_FR\"]\x7d]\x7d" :=
  ⟨rfl, rfl, rfl, rfl, by decide, rfl, by decide +kernel⟩

end Criteria

end CatalogClient
