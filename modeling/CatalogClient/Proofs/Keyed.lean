import Mathlib.Data.List.Nodup
/-!
Lists of pairs in which no key stands twice.
-/

namespace CatalogClient

variable {α : Type} {ms : List (String × α)}

theorem filter_of_nodup (h : (ms.map (·.1)).Nodup) (key : String) :
    ms.filter (·.1 = key) = (ms.find? (·.1 = key)).toList := by
  induction ms with
  | nil => rfl
  | cons m ms ih =>
    obtain ⟨hm, hms⟩ := List.nodup_cons.mp h
    by_cases hkey : m.1 = key
    · have hnone : ms.filter (·.1 = key) = [] := by
        refine List.filter_eq_nil_iff.mpr fun n hn hsame => hm ?_
        exact List.mem_map.mpr ⟨n, hn, (of_decide_eq_true hsame).trans hkey.symm⟩
      simp [hkey, hnone]
    · simpa [hkey] using ih hms

theorem find?_of_mem (h : (ms.map (·.1)).Nodup) {m : String × α} (hm : m ∈ ms) :
    ms.find? (·.1 = m.1) = some m := by
  have hmem : m ∈ ms.filter (·.1 = m.1) := List.mem_filter.mpr ⟨hm, decide_eq_true rfl⟩
  rw [filter_of_nodup h] at hmem
  exact Option.mem_toList.mp hmem

theorem find?_eq_some_iff (h : (ms.map (·.1)).Nodup) {key : String} {m : String × α} :
    ms.find? (·.1 = key) = some m ↔ m ∈ ms ∧ m.1 = key := by
  constructor
  · intro hfind
    exact ⟨List.mem_of_find?_eq_some hfind, by simpa using List.find?_some hfind⟩
  · rintro ⟨hm, rfl⟩
    exact find?_of_mem h hm

/-- Where no key stands twice, what is found under a key does not hang on the order. -/
theorem find?_of_same_members {ns : List (String × α)} (hms : (ms.map (·.1)).Nodup) (hns : (ns.map (·.1)).Nodup)
    {key : String} (h : ∀ m, m.1 = key → (m ∈ ms ↔ m ∈ ns)) : ms.find? (·.1 = key) = ns.find? (·.1 = key) := by
  refine Option.ext fun m => ?_
  rw [find?_eq_some_iff hms, find?_eq_some_iff hns]
  exact and_congr_left fun hkey => h m hkey

end CatalogClient
