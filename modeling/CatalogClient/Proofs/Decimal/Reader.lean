import CatalogClient.Decimal.Reader
import CatalogClient.Proofs.Decimal.Nearest
import Mathlib.Data.List.TakeWhile
/-!
A text of nothing but digits is read as the number nearest to the one they write, whatever their number is.
-/

namespace CatalogClient.Decimal

open Binary64

variable {cs : List Char} {c : Char} {n : Nat}

section Digits

theorem toLower_of_isDigit (h : isDigit c = true) : c.toLower = c := by
  have hrange : '0'.val ≤ c.val ∧ c.val ≤ '9'.val := by simpa [isDigit, Char.le_def] using h
  have hupper : ¬('A'.val ≤ c.val ∧ c.val ≤ 'Z'.val) := fun hletter =>
    absurd (UInt32.le_trans hletter.1 hrange.2) (by decide)
  exact dif_neg hupper

theorem map_toLower_of_digits (h : ∀ c ∈ cs, isDigit c = true) : cs.map Char.toLower = cs :=
  (List.map_congr_left fun c hc => toLower_of_isDigit (h c hc)).trans (List.map_id' cs)

theorem spanDigits_of_digits (h : ∀ c ∈ cs, isDigit c = true) : spanDigits cs = (cs, []) := by
  rw [spanDigits, List.takeWhile_eq_self_iff.mpr h, List.dropWhile_eq_nil_iff.mpr h]

theorem readUnsigned?_digits (hne : cs ≠ []) (h : ∀ c ∈ cs, isDigit c = true) :
    readUnsigned? false cs = some (ofDecimal false (value cs) 0) := by
  have hword : ∀ word : String, word.toList.all isDigit = false → String.ofList cs ≠ word := by
    rintro word hletter rfl
    rw [String.toList_ofList, List.all_eq_true.mpr h] at hletter
    cases hletter
  simp only [readUnsigned?, map_toLower_of_digits h, spanDigits_of_digits h]
  rw [if_neg, if_neg, if_neg]
  · simp [readExponent?]
  · simp [hne]
  · exact hword _ (by decide)
  · rintro (hshort | hlong)
    · exact hword _ (by decide) hshort
    · exact hword _ (by decide) hlong

theorem readFloat?_digits (hne : cs ≠ []) (h : ∀ c ∈ cs, isDigit c = true) :
    readFloat? (String.ofList cs) = some (ofDecimal false (value cs) 0) := by
  rw [readFloat?, String.toList_ofList]
  split
  · exact absurd (h '-' List.mem_cons_self) (by decide)
  · exact absurd (h '+' List.mem_cons_self) (by decide)
  · exact readUnsigned?_digits hne h

end Digits

/-- The shortcut by the number of digits is one past the greatest finite number. -/
theorem ofDecimal_whole (n : Nat) : ofDecimal false n 0 = nearest false n 1 := by
  have hexponent : ¬((write n).length : Int) + 0 < -330 := by omega
  simp only [ofDecimal, hexponent]
  split
  · rename_i hzero
    simp_all [nearest]
  · split
    · rename_i hlong
      have hgreat : leastInfinite ≤ n := by
        have hdigits : ¬(write n).length ≤ 320 := by omega
        rw [write, Nat.length_toDigits_le_iff (by decide) (by decide), Nat.not_lt] at hdigits
        exact le_trans (by decide +kernel) hdigits
      exact (nearest_infinite hgreat).symm
    · simp [powerOfTen]

end CatalogClient.Decimal
