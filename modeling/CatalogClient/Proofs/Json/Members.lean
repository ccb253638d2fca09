import CatalogClient.Json.Decode
import Mathlib.Data.List.Induction
import Mathlib.Data.String.Basic
/-!
Members of objects gathered by their keys: in ascending order, and of members with one key the last. A member is
found by its key.
-/

namespace CatalogClient.Json

namespace Decode.members

variable {α : Type} {k : String} {a : α} {m : String × α} {ms : List (String × α)}

theorem insert_last (h : ∀ l ∈ ms.map (·.1), l < k) : insert k a ms = ms ++ [(k, a)] := by
  induction ms with
  | nil => rfl
  | cons m ms ih =>
    obtain ⟨hm, hms⟩ := List.forall_mem_cons.mp h
    rw [insert, if_neg (ne_of_gt hm), if_neg (lt_asymm hm), ih hms, List.cons_append]

theorem mem_insert (h : m ∈ insert k a ms) : m = (k, a) ∨ m ∈ ms := by
  induction ms with
  | nil => exact .inl (List.mem_singleton.mp h)
  | cons n ms ih =>
    simp only [insert] at h
    split at h
    · exact (List.mem_cons.mp h).imp id (List.mem_cons_of_mem n)
    · split at h
      · exact List.mem_cons.mp h
      · obtain rfl | h := List.mem_cons.mp h
        · exact .inr List.mem_cons_self
        · exact (ih h).imp id (List.mem_cons_of_mem n)

theorem pairwise_insert (h : (ms.map (·.1)).Pairwise (· < ·)) : ((insert k a ms).map (·.1)).Pairwise (· < ·) := by
  induction ms with
  | nil => simp [insert]
  | cons m ms ih =>
    obtain ⟨hm, hms⟩ := List.pairwise_cons.mp h
    simp only [insert]
    split
    · rename_i hk
      exact List.pairwise_cons.mpr ⟨hk ▸ hm, hms⟩
    · rename_i hk
      split
      · rename_i hlt
        exact List.pairwise_cons.mpr ⟨List.forall_mem_cons.mpr ⟨hlt, fun l hl => hlt.trans (hm l hl)⟩, h⟩
      · rename_i hlt
        refine List.pairwise_cons.mpr ⟨List.forall_mem_map.mpr fun n hn => ?_, ih hms⟩
        obtain rfl | hn := mem_insert hn
        · exact lt_of_le_of_ne (not_lt.mp hlt) (Ne.symm hk)
        · exact hm n.1 (List.mem_map_of_mem hn)

theorem insert_perm (h : k ∉ ms.map (·.1)) : (insert k a ms).Perm ((k, a) :: ms) := by
  induction ms with
  | nil => exact .refl _
  | cons m ms ih =>
    rw [List.map_cons, List.mem_cons, not_or] at h
    obtain ⟨hm, hms⟩ := h
    rw [insert, if_neg hm]
    split
    · exact .refl _
    · exact ((ih hms).cons m).trans (.swap (k, a) m ms)

/-- What is kept of members that are inserted one by one. -/
def gather (ms : List (String × α)) : List (String × α) := ms.foldl (fun acc m => insert m.1 m.2 acc) []

theorem gather_concat (ms : List (String × α)) (m : String × α) :
    gather (ms ++ [m]) = insert m.1 m.2 (gather ms) := by
  rw [gather, List.foldl_append]
  rfl

theorem mem_of_mem_gather (h : m ∈ gather ms) : m ∈ ms := by
  induction ms using List.reverseRecOn with
  | nil => exact h
  | append_singleton ms n ih =>
    rw [gather_concat] at h
    obtain rfl | h := mem_insert h
    · exact List.mem_append_right _ List.mem_cons_self
    · exact List.mem_append_left _ (ih h)

theorem pairwise_gather (ms : List (String × α)) : ((gather ms).map (·.1)).Pairwise (· < ·) := by
  induction ms using List.reverseRecOn with
  | nil => exact .nil
  | append_singleton ms m ih => exact gather_concat ms m ▸ pairwise_insert ih

/-- Members of distinct keys are only put in order. -/
theorem gather_perm (h : (ms.map (·.1)).Nodup) : (gather ms).Perm ms := by
  induction ms using List.reverseRecOn with
  | nil => exact .refl _
  | append_singleton ms m ih =>
    rw [((List.perm_append_singleton m ms).map _).nodup_iff] at h
    obtain ⟨hm, hms⟩ := List.nodup_cons.mp h
    have hkey : m.1 ∉ (gather ms).map (·.1) := fun hmem => hm (((ih hms).map _).mem_iff.mp hmem)
    rw [gather_concat]
    exact ((insert_perm hkey).trans ((ih hms).cons m)).trans (List.perm_append_singleton m ms).symm

theorem gather_ascending (h : (ms.map (·.1)).Pairwise (· < ·)) : gather ms = ms := by
  induction ms using List.reverseRecOn with
  | nil => rfl
  | append_singleton ms m ih =>
    rw [List.map_append, List.pairwise_append] at h
    obtain ⟨hms, -, hm⟩ := h
    rw [gather_concat, ih hms, insert_last fun l hl => hm l hl m.1 (by simp)]

end Decode.members

open Decode

variable {ms : List (String × Json)}

theorem insertMember_eq (k : String) (v : Json) (ms : List (String × Json)) :
    insertMember k v ms = members.insert k v ms := by
  induction ms with
  | nil => rfl
  | cons m ms ih => rw [insertMember, members.insert, ih]

theorem sortMembers_eq_gather (ms : List (String × Json)) : sortMembers ms = members.gather ms := by
  simp only [sortMembers, members.gather, insertMember_eq]

theorem mem_of_mem_sortMembers {m : String × Json} (h : m ∈ sortMembers ms) : m ∈ ms :=
  members.mem_of_mem_gather (sortMembers_eq_gather ms ▸ h)

theorem pairwise_sortMembers (ms : List (String × Json)) : ((sortMembers ms).map (·.1)).Pairwise (· < ·) :=
  sortMembers_eq_gather ms ▸ members.pairwise_gather ms

theorem sortMembers_perm (h : (ms.map (·.1)).Nodup) : (sortMembers ms).Perm ms :=
  sortMembers_eq_gather ms ▸ members.gather_perm h

theorem sortMembers_ascending (h : (ms.map (·.1)).Pairwise (· < ·)) : sortMembers ms = ms :=
  (sortMembers_eq_gather ms).trans (members.gather_ascending h)

@[simp]
theorem member?_nil (key : String) : member? key [] = none := rfl

@[simp]
theorem member?_cons (key l : String) (v : Json) (ms : List (String × Json)) :
    member? key ((l, v) :: ms) = if l = key then some v else member? key ms := by
  by_cases h : l = key <;> simp [member?, h]

@[simp]
theorem member?_append (key : String) (ms ns : List (String × Json)) :
    member? key (ms ++ ns) = (member? key ms).or (member? key ns) := by
  rw [member?, List.find?_append, Option.map_or]
  rfl

@[simp]
theorem member?_optional {α : Type} (key l : String) (o : Option α) (g : α → Json) :
    member? key (o.map fun a => (l, g a)).toList = if l = key then o.map g else none := by
  cases o <;> simp

@[simp]
theorem member?_unless (key : String) (p : Prop) [Decidable p] (ms : List (String × Json)) :
    member? key (if p then [] else ms) = if p then none else member? key ms := apply_ite (member? key) p [] ms

theorem member?_insertMember (k key : String) (v : Json) (ms : List (String × Json)) :
    member? key (insertMember k v ms) = if k = key then some v else member? key ms := by
  induction ms with
  | nil => exact member?_cons key k v []
  | cons m ms ih =>
    obtain ⟨l, x⟩ := m
    simp only [insertMember]
    split
    · rename_i hsame
      by_cases hkey : k = key <;> simp [hkey, ← hsame]
    · rename_i hother
      split
      · rw [member?_cons]
      · rw [member?_cons, member?_cons, ih]
        by_cases hkey : k = key
        · rw [if_pos hkey, if_pos hkey, if_neg fun hl => hother (hkey.trans hl.symm)]
        · rw [if_neg hkey, if_neg hkey]

theorem mem_of_member? {k : String} {v : Json} (h : member? k ms = some v) : (k, v) ∈ ms := by
  obtain ⟨m, hfind, rfl⟩ := Option.map_eq_some_iff.mp h
  obtain rfl : m.1 = k := by simpa using List.find?_some hfind
  exact List.mem_of_find?_eq_some hfind

/-- A member that is there already is put in its own place. -/
theorem insertMember_same {k : String} {v : Json} (hkeys : (ms.map (·.1)).Pairwise (· < ·))
    (h : member? k ms = some v) : insertMember k v ms = ms := by
  induction ms with
  | nil => cases h
  | cons m ms ih =>
    obtain ⟨l, w⟩ := m
    obtain ⟨hl, hms⟩ := List.pairwise_cons.mp hkeys
    rw [member?_cons] at h
    by_cases hlk : l = k
    · subst hlk
      rw [if_pos rfl] at h
      rw [insertMember, if_pos rfl, Option.some.inj h]
    · rw [if_neg hlk] at h
      have hlt : l < k := hl k (List.mem_map_of_mem (mem_of_member? h))
      rw [insertMember, if_neg (Ne.symm hlk), if_neg (lt_asymm hlt), ih hms h]

/-- Of the members with a key the last counts. -/
theorem member?_sortMembers (key : String) (ms : List (String × Json)) :
    member? key (sortMembers ms) = (ms.filter (·.1 = key)).getLast?.map (·.2) := by
  induction ms using List.reverseRecOn with
  | nil => rfl
  | append_singleton ms m ih =>
    have hlast : sortMembers (ms ++ [m]) = insertMember m.1 m.2 (sortMembers ms) := List.foldl_append
    rw [hlast, member?_insertMember, ih, List.filter_append]
    by_cases hkey : m.1 = key <;> simp [hkey]

end CatalogClient.Json
