import CatalogClient.Text.Blank
/-!
A text divided at a separator: into all its pieces, which joined are the text again, and at the first place where
the separator stands.
-/

namespace CatalogClient.Text

variable {sep : Char}

section Pieces

theorem splitList_append (front back : List Char) :
    splitList sep (front ++ sep :: back) = splitList sep front ++ splitList sep back := by
  induction front with
  | nil => simp [splitList]
  | cons c front ih =>
    rw [List.cons_append, splitList, splitList, ih]
    split
    · rfl
    · cases hfront : splitList sep front with
      | nil => exact absurd hfront (splitList_ne_nil sep front)
      | cons piece pieces => rfl

theorem splitList_of_not_mem {cs : List Char} (h : sep ∉ cs) : splitList sep cs = [cs] := by
  induction cs with
  | nil => rfl
  | cons c cs ih =>
    have hc : c ≠ sep := fun hc => h (hc ▸ List.mem_cons_self)
    rw [splitList, if_neg hc, ih fun hmem => h (List.mem_cons_of_mem _ hmem)]

theorem splitList_intercalate {pieces : List (List Char)} (hne : pieces ≠ [])
    (h : ∀ piece ∈ pieces, sep ∉ piece) : splitList sep ([sep].intercalate pieces) = pieces := by
  induction pieces with
  | nil => exact absurd rfl hne
  | cons piece pieces ih =>
    cases pieces with
    | nil => simpa using splitList_of_not_mem (h piece List.mem_cons_self)
    | cons next pieces =>
      have hrest := ih (by simp) fun piece' hmem => h piece' (List.mem_cons_of_mem _ hmem)
      rw [List.intercalate_cons_cons, List.append_assoc, List.singleton_append, splitList_append,
        hrest, splitList_of_not_mem (h piece List.mem_cons_self), List.singleton_append]

theorem notMem_of_mem_splitList {cs piece : List Char} (h : piece ∈ splitList sep cs) : sep ∉ piece := by
  induction cs generalizing piece with
  | nil =>
    cases List.mem_singleton.mp h
    exact List.not_mem_nil
  | cons c cs ih =>
    rw [splitList] at h
    split at h
    · rcases List.mem_cons.mp h with rfl | h
      · exact List.not_mem_nil
      · exact ih h
    · rename_i hc
      split at h
      · cases List.mem_singleton.mp h
        simpa using fun heq => hc heq.symm
      · rename_i first pieces hrest
        rw [hrest] at ih
        rcases List.mem_cons.mp h with rfl | h
        · rw [List.mem_cons, not_or]
          exact ⟨fun heq => hc heq.symm, ih List.mem_cons_self⟩
        · exact ih (List.mem_cons_of_mem _ h)

theorem splitList_eq_splitOn (cs : List Char) : splitList sep cs = cs.splitOn sep := by
  induction cs with
  | nil => rfl
  | cons c cs ih =>
    rw [splitList, List.splitOn_cons_eq_if_modifyHead, ← ih]
    simp only [beq_iff_eq]
    congr 1
    cases hrest : splitList sep cs with
    | nil => exact absurd hrest (splitList_ne_nil sep cs)
    | cons piece pieces => rfl

theorem intercalate_splitList (sep : Char) (cs : List Char) : [sep].intercalate (splitList sep cs) = cs := by
  rw [splitList_eq_splitOn, List.intercalate_splitOn]

theorem mem_intercalate {c : Char} {pieces : List (List Char)} (h : c ∈ [sep].intercalate pieces) :
    c = sep ∨ ∃ piece ∈ pieces, c ∈ piece := by
  induction pieces with
  | nil => cases h
  | cons piece pieces ih =>
    cases pieces with
    | nil => exact .inr ⟨piece, List.mem_cons_self, by simpa using h⟩
    | cons next pieces =>
      rw [List.intercalate_cons_cons, List.append_assoc, List.mem_append, List.mem_append] at h
      rcases h with h | h | h
      · exact .inr ⟨piece, List.mem_cons_self, h⟩
      · exact .inl (List.mem_singleton.mp h)
      · exact (ih h).imp id fun ⟨p, hp, hc⟩ => ⟨p, List.mem_cons_of_mem _ hp, hc⟩

theorem mem_intercalate_of_mem {c : Char} {piece : List Char} {pieces : List (List Char)}
    (hpiece : piece ∈ pieces) (hc : c ∈ piece) : c ∈ [sep].intercalate pieces := by
  induction pieces with
  | nil => cases hpiece
  | cons first pieces ih =>
    cases pieces with
    | nil =>
      cases List.mem_singleton.mp hpiece
      simpa using hc
    | cons next pieces =>
      rw [List.intercalate_cons_cons, List.append_assoc, List.mem_append, List.mem_append]
      rcases List.mem_cons.mp hpiece with rfl | hpiece
      · exact .inl hc
      · exact .inr (.inr (ih hpiece))

theorem mem_of_mem_splitList {cs piece : List Char} (h : piece ∈ splitList sep cs) {c : Char}
    (hc : c ∈ piece) : c ∈ cs :=
  intercalate_splitList sep cs ▸ mem_intercalate_of_mem h hc

end Pieces

section Cut

theorem cut?_of_notMem {cs : List Char} (h : sep ∉ cs) : cut? sep cs = none := if_neg h

theorem cut?_append {front : List Char} (h : sep ∉ front) (back : List Char) :
    cut? sep (front ++ sep :: back) = some (front, back) := by
  have hkept : ∀ c ∈ front, (c != sep) = true := by
    intro c hc
    simpa using fun heq : c = sep => h (heq ▸ hc)
  rw [cut?, if_pos (by simp), List.takeWhile_append_of_pos hkept, List.dropWhile_append_of_pos hkept]
  simp

theorem cut?_eq_some_iff {cs front back : List Char} :
    cut? sep cs = some (front, back) ↔ cs = front ++ sep :: back ∧ sep ∉ front := by
  constructor
  · intro h
    by_cases hsep : sep ∈ cs
    · obtain ⟨front', back', rfl, hfront⟩ := List.eq_append_cons_of_mem hsep
      cases (cut?_append hfront back').symm.trans h
      exact ⟨rfl, hfront⟩
    · rw [cut?, if_neg hsep] at h
      cases h
  · rintro ⟨rfl, hfront⟩
    exact cut?_append hfront back

end Cut

section Replacement

variable {f : Char → List Char}

theorem splitList_prepend {front : List Char} (h : sep ∉ front) (cs : List Char) :
    splitList sep (front ++ cs) = (splitList sep cs).modifyHead (front ++ ·) := by
  induction front with
  | nil =>
    rw [List.nil_append]
    cases splitList sep cs <;> rfl
  | cons c front ih =>
    rw [List.mem_cons, not_or] at h
    rw [List.cons_append, splitList, if_neg (Ne.symm h.1), ih h.2]
    cases hrest : splitList sep cs with
    | nil => exact absurd hrest (splitList_ne_nil sep cs)
    | cons piece pieces => rfl

/-- Where no other character is replaced by a text with the separator, the pieces are replaced one by one. -/
theorem splitList_flatMap (hsep : f sep = [sep]) (hf : ∀ c, c ≠ sep → sep ∉ f c) (cs : List Char) :
    splitList sep (cs.flatMap f) = (splitList sep cs).map (·.flatMap f) := by
  induction cs with
  | nil => rfl
  | cons c cs ih =>
    rw [List.flatMap_cons, splitList]
    by_cases hc : c = sep
    · rw [if_pos hc, hc, hsep, List.singleton_append, splitList, if_pos rfl, ih]
      rfl
    · rw [if_neg hc, splitList_prepend (hf c hc), ih]
      cases hrest : splitList sep cs with
      | nil => exact absurd hrest (splitList_ne_nil sep cs)
      | cons piece pieces => rfl

theorem notMem_flatMap (hf : ∀ c, c ≠ sep → sep ∉ f c) {cs : List Char} (h : sep ∉ cs) :
    sep ∉ cs.flatMap f := by
  intro hmem
  obtain ⟨c, hc, hsep⟩ := List.mem_flatMap.mp hmem
  exact hf c (fun heq => h (heq ▸ hc)) hsep

theorem cut?_flatMap (hsep : f sep = [sep]) (hf : ∀ c, c ≠ sep → sep ∉ f c) (cs : List Char) :
    cut? sep (cs.flatMap f) = (cut? sep cs).map fun p => (p.1.flatMap f, p.2.flatMap f) := by
  by_cases h : sep ∈ cs
  · obtain ⟨front, back, rfl, hfront⟩ := List.eq_append_cons_of_mem h
    rw [cut?_append hfront, List.flatMap_append, List.flatMap_cons, hsep, List.singleton_append,
      cut?_append (notMem_flatMap hf hfront)]
    rfl
  · rw [cut?_of_notMem h, cut?_of_notMem (notMem_flatMap hf h)]
    rfl

end Replacement

end CatalogClient.Text
