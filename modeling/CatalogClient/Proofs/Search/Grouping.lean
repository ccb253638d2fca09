import CatalogClient.Proofs.Search.RoundTrip
/-!
The criteria of a search are the clauses pushed into them, put together by their fields: the fields in the order
of their first clauses, and under each field its clauses in the order in which they came.
-/

namespace CatalogClient

namespace Criteria

variable {cs : List Clause}

theorem get_ofList (cs : List Clause) (field : String) : (ofList cs).get field = cs.filter (·.field = field) := by
  rw [get, find?_ofList]
  split
  · rename_i hnone
    exact hnone.symm
  · rfl

theorem fields_append (cs : List Clause) (c : Clause) :
    (ofList (cs ++ [c])).fields =
      if c.field ∈ (ofList cs).fields then (ofList cs).fields else (ofList cs).fields ++ [c.field] := by
  rw [ofList_append]
  exact keys_pushGroup c (ofList cs).groups

/-- A field stands where its first clause puts it. -/
theorem fields_in_order (cs : List Clause) :
    (ofList cs).fields.Pairwise fun f g => (cs.map (·.field)).idxOf f < (cs.map (·.field)).idxOf g := by
  induction cs using List.reverseRecOn with
  | nil => exact .nil
  | append_singleton cs c ih =>
    have hold {f : String} (hf : f ∈ (ofList cs).fields) :
        ((cs ++ [c]).map (·.field)).idxOf f = (cs.map (·.field)).idxOf f ∧ (cs.map (·.field)).idxOf f < cs.length := by
      have hmem : f ∈ cs.map (·.field) := by
        obtain ⟨d, hd, hfield⟩ := mem_fields.mp hf
        exact List.mem_map.mpr ⟨d, hd, hfield⟩
      rw [List.map_append, List.idxOf_append_of_mem hmem]
      exact ⟨rfl, by simpa using List.idxOf_lt_length_of_mem hmem⟩
    have hkept : (ofList cs).fields.Pairwise fun f g =>
        ((cs ++ [c]).map (·.field)).idxOf f < ((cs ++ [c]).map (·.field)).idxOf g :=
      ih.imp_of_mem fun hf hg hlt => by rwa [(hold hf).1, (hold hg).1]
    rw [fields_append]
    split
    · exact hkept
    · rename_i hnew
      have hlast : ((cs ++ [c]).map (·.field)).idxOf c.field = cs.length := by
        have hnot : c.field ∉ cs.map (·.field) := fun h =>
          let ⟨d, hd, hfield⟩ := List.mem_map.mp h
          hnew (mem_fields.mpr ⟨d, hd, hfield⟩)
        simp [List.map_append, List.idxOf_append_of_notMem hnot]
      refine List.pairwise_append.mpr ⟨hkept, List.pairwise_singleton .., fun f hf g hg => ?_⟩
      rw [List.mem_singleton.mp hg, hlast, (hold hf).1]
      exact (hold hf).2

theorem clauses_pushGroup (c : Clause) (gs : List (String × List Clause)) :
    ((pushGroup c gs).flatMap (·.2)).Perm (gs.flatMap (·.2) ++ [c]) := by
  induction gs with
  | nil => exact .refl _
  | cons g gs ih =>
    obtain ⟨field, cs⟩ := g
    simp only [pushGroup]
    split
    · rw [List.flatMap_cons, List.flatMap_cons, List.append_assoc, List.append_assoc]
      exact (List.perm_append_comm).append_left cs
    · rw [List.flatMap_cons, List.flatMap_cons, List.append_assoc]
      exact ih.append_left cs

/-- No clause is lost or doubled. -/
theorem clauses_perm (cs : List Clause) : (ofList cs).clauses.Perm cs := by
  induction cs using List.reverseRecOn with
  | nil => exact .refl _
  | append_singleton cs c ih =>
    rw [ofList_append]
    exact (clauses_pushGroup c _).trans (ih.append_right [c])

theorem clauses_eq_flatMap (cs : List Clause) : (ofList cs).clauses = (ofList cs).fields.flatMap (ofList cs).get := by
  rw [clauses, fields, List.flatMap_map]
  refine List.flatMap_congr fun g hg => ?_
  rw [get_ofList, (snd_of_mem_groups hg).1]

theorem validate_ofList : (ofList cs).validate = .ok () ↔ ∀ c ∈ cs, c.validate = .ok () := by
  simp only [validate, except_forM_ok, mem_clauses_ofList]

/-- Pushing clauses groups them stably. -/
theorem stable_grouping (cs : List Clause) :
    (ofList cs).fields.Nodup ∧
    ((ofList cs).fields.Pairwise fun f g => (cs.map (·.field)).idxOf f < (cs.map (·.field)).idxOf g) ∧
    (∀ field, field ∈ (ofList cs).fields ↔ ∃ c ∈ cs, c.field = field) ∧
    (∀ field, (ofList cs).get field = cs.filter (·.field = field)) ∧
    (∀ field ∈ (ofList cs).fields, (ofList cs).get field ≠ []) ∧
    (ofList cs).clauses = (ofList cs).fields.flatMap (ofList cs).get ∧
    (ofList cs).clauses.length = cs.length ∧
    ((ofList cs).isEmpty ↔ cs = []) ∧
    ((ofList cs).validate = .ok () ↔ ∀ c ∈ cs, c.validate = .ok ()) := by
  refine ⟨nodup_fields cs, fields_in_order cs, fun _ => mem_fields, get_ofList cs, fun field hfield => ?_,
    clauses_eq_flatMap cs, (clauses_perm cs).length_eq, isEmpty_ofList, validate_ofList⟩
  obtain ⟨c, hc, hfield⟩ := mem_fields.mp hfield
  rw [get_ofList]
  exact List.ne_nil_of_mem (List.mem_filter.mpr ⟨hc, decide_eq_true hfield⟩)

end Criteria

end CatalogClient
