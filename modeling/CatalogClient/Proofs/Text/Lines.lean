import Mathlib.Data.List.DropRight
import CatalogClient.Proofs.Text.Split
/-!
The lines of a text, and what is left of one without the blanks around it.
-/

namespace CatalogClient.Text

/-- A line of a text: it begins with the text or behind a line feed, and ends with the text or before one. -/
structure IsLine (line text : List Char) : Prop where
  whole : '\n' ∉ line
  placed : ∃ before after, text = before ++ line ++ after ∧ (before = [] ∨ before.getLast? = some '\n') ∧
    (after = [] ∨ after.head? = some '\n')

variable {before body after cs : List Char}

theorem dropWhile_blanks (hbefore : ∀ c ∈ before, isBlank c) (hhead : ∀ c ∈ cs.head?, isBlank c = false) :
    (before ++ cs).dropWhile isBlank = cs := by
  rw [List.dropWhile_append_of_pos hbefore]
  cases cs with
  | nil => rfl
  | cons c cs => simp [hhead c rfl]

theorem trimList_padded (hbefore : ∀ c ∈ before, isBlank c) (hafter : ∀ c ∈ after, isBlank c) (hbody : body ≠ [])
    (hhead : ∀ c ∈ body.head?, isBlank c = false) (hlast : ∀ c ∈ body.getLast?, isBlank c = false) :
    trimList (before ++ body ++ after) = body := by
  have hfront : (body ++ after).head? = body.head? := by
    rw [List.head?_append, Option.or_of_isSome (by simpa using hbody)]
  rw [trimList, List.append_assoc, dropWhile_blanks hbefore (hfront ▸ hhead), List.reverse_append,
    dropWhile_blanks (fun c hc => hafter c (List.mem_reverse.mp hc)) (List.head?_reverse ▸ hlast), List.reverse_reverse]

/-- What is left of a text lacks nothing but blanks. -/
theorem exists_trimList (cs : List Char) : ∃ before after, cs = before ++ trimList cs ++ after ∧
    (∀ c ∈ before, isBlank c) ∧ ∀ c ∈ after, isBlank c := by
  refine ⟨cs.takeWhile isBlank, (cs.dropWhile isBlank).rtakeWhile isBlank, ?_,
    fun c => List.mem_takeWhile_imp, fun c => List.mem_rtakeWhile_imp⟩
  have hback := List.rdropWhile_append_rtakeWhile (p := isBlank) (l := cs.dropWhile isBlank)
  have hfront := List.takeWhile_append_dropWhile (p := isBlank) (l := cs)
  rw [List.append_assoc]
  exact (hfront.symm.trans (congrArg _ hback.symm))

theorem trimList_eq_nil : trimList cs = [] ↔ ∀ c ∈ cs, isBlank c := by
  have hnil : trimList cs = [] ↔ ∀ c ∈ cs.dropWhile isBlank, isBlank c := List.rdropWhile_eq_nil_iff
  rw [hnil]
  refine ⟨fun h c hc => ?_, fun h c hc => h c ((List.dropWhile_sublist _).subset hc)⟩
  rw [← List.takeWhile_append_dropWhile (p := isBlank) (l := cs)] at hc
  obtain hc | hc := List.mem_append.mp hc
  · exact List.mem_takeWhile_imp hc
  · exact h c hc

theorem IsLine.mem_splitList {line text : List Char} (h : IsLine line text) : line ∈ splitList '\n' text := by
  obtain ⟨before, after, rfl, hbefore, hafter⟩ := h.placed
  have hfront : line ∈ splitList '\n' (line ++ after) := by
    obtain rfl | hafter := hafter
    · rw [List.append_nil, splitList_of_not_mem h.whole]
      exact List.mem_singleton_self line
    · obtain ⟨after, rfl⟩ := List.head?_eq_some_iff.mp hafter
      rw [splitList_append, splitList_of_not_mem h.whole]
      exact List.mem_cons_self
  rw [List.append_assoc]
  obtain rfl | hbefore := hbefore
  · exact hfront
  · obtain ⟨before, rfl⟩ := List.getLast?_eq_some_iff.mp hbefore
    rw [List.append_assoc, List.singleton_append, splitList_append]
    exact List.mem_append_right _ hfront

theorem placed_intercalate (front : List (List Char)) (line : List Char) (back : List (List Char)) :
    ∃ before after, ['\n'].intercalate (front ++ line :: back) = before ++ line ++ after ∧
      (before = [] ∨ before.getLast? = some '\n') ∧ (after = [] ∨ after.head? = some '\n') := by
  induction front with
  | nil =>
    cases back with
    | nil => exact ⟨[], [], by simp, .inl rfl, .inl rfl⟩
    | cons next back =>
      refine ⟨[], '\n' :: ['\n'].intercalate (next :: back), ?_, .inl rfl, .inr rfl⟩
      rw [List.nil_append, List.intercalate_cons_cons, List.append_assoc, List.singleton_append, List.nil_append]
  | cons first front ih =>
    obtain ⟨before, after, htext, hbefore, hafter⟩ := ih
    refine ⟨first ++ '\n' :: before, after, ?_, .inr ?_, hafter⟩
    · rw [List.cons_append, List.intercalate_cons_of_ne_nil (by simp), htext]
      simp
    · obtain rfl | hbefore := hbefore
      · exact List.getLast?_concat
      · rw [List.getLast?_append, List.getLast?_cons, hbefore]
        rfl

theorem isLine_iff {line text : List Char} : IsLine line text ↔ line ∈ splitList '\n' text := by
  refine ⟨IsLine.mem_splitList, fun h => ⟨notMem_of_mem_splitList h, ?_⟩⟩
  obtain ⟨front, back, hpieces⟩ := List.append_of_mem h
  rw [← intercalate_splitList '\n' text, hpieces]
  exact placed_intercalate front line back

end CatalogClient.Text
