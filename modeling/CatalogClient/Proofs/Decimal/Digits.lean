import CatalogClient.Decimal.Digits
import CatalogClient.Text.Blank
/-!
Numbers written with decimal digits are read back.
-/

namespace CatalogClient.Decimal

theorem isBlank_of_isDigit {c : Char} (h : isDigit c = true) : Text.isBlank c = false := by
  simp only [isDigit, Bool.and_eq_true, decide_eq_true_iff, Char.le_def, UInt32.le_iff_toNat_le] at h
  change 48 ≤ c.toNat ∧ c.toNat ≤ 57 at h
  simp [Text.isBlank]
  omega

theorem isDigit_of_mem_write {n : Nat} {c : Char} (h : c ∈ write n) : isDigit c = true := by
  have hdigit := Nat.isDigit_of_mem_toDigits (by decide) (by decide) h
  simpa [Char.isDigit, isDigit, Char.le_def] using hdigit

theorem write_ne_nil (n : Nat) : write n ≠ [] := Nat.toDigits_ne_nil

theorem value_write (n : Nat) : value (write n) = n := Nat.ofDigitChars_ten_toDigits

/-- A number but zero is written without a zero in front. -/
theorem head?_write {n : Nat} (h : 0 < n) : (write n).head? ≠ some '0' := by
  induction n using Nat.strongRecOn with
  | ind n ih =>
    by_cases hn : n < 10
    · have hdigit : ∀ d < 10, 0 < d → Nat.digitChar d ≠ '0' := by decide
      rw [write, Nat.toDigits_of_lt_base hn]
      simpa using hdigit n hn h
    · rw [write, Nat.toDigits_of_base_le (by decide) (by omega), List.head?_append,
        List.head?_eq_some_head Nat.toDigits_ne_nil, Option.some_or, ← List.head?_eq_some_head]
      exact ih (n / 10) (by omega) (by omega)

theorem le_ofDigitChars (cs : List Char) (n : Nat) : n ≤ Nat.ofDigitChars 10 cs n := by
  induction cs generalizing n with
  | nil => simp
  | cons c cs ih =>
    rw [Nat.ofDigitChars_cons]
    refine Nat.le_trans ?_ (ih _)
    omega

theorem go_digits {bound : Nat} {cs : List Char} {n : Nat} (hdigits : ∀ c ∈ cs, isDigit c = true)
    (hbound : Nat.ofDigitChars 10 cs n < bound) :
    readBelow.go bound cs n = .ok (Nat.ofDigitChars 10 cs n) := by
  induction cs generalizing n with
  | nil => simp [readBelow.go]
  | cons c cs ih =>
    rw [Nat.ofDigitChars_cons] at hbound ⊢
    have hstep : 10 * n + digitValue c < bound := Nat.lt_of_le_of_lt (le_ofDigitChars cs _) hbound
    rw [readBelow.go, if_pos (hdigits c List.mem_cons_self)]
    dsimp only
    rw [if_pos hstep]
    exact ih (fun d hd => hdigits d (List.mem_cons_of_mem _ hd)) hbound

theorem readBelow_digits {bound : Nat} {cs : List Char} (hne : cs ≠ [])
    (hdigits : ∀ c ∈ cs, isDigit c = true) (hbound : Nat.ofDigitChars 10 cs 0 < bound) :
    readBelow bound (String.ofList cs) = .ok (Nat.ofDigitChars 10 cs 0) := by
  cases cs with
  | nil => exact absurd rfl hne
  | cons c cs =>
    have hplus : c ≠ '+' := by
      rintro rfl
      exact absurd (hdigits _ List.mem_cons_self) (by decide)
    rw [← go_digits hdigits hbound, readBelow, String.toList_ofList]
    split
    · rename_i h
      cases h
    · rename_i h
      exact absurd (List.cons.inj h).1 hplus
    · rename_i h
      exact absurd (List.cons.inj h).1 hplus
    · rfl

theorem readBelow_write {bound n : Nat} (h : n < bound) :
    readBelow bound (String.ofList (write n)) = .ok n := by
  have hvalue : Nat.ofDigitChars 10 (write n) 0 = n := Nat.ofDigitChars_ten_toDigits
  rw [readBelow_digits (write_ne_nil n) (fun _ => isDigit_of_mem_write) (hvalue.symm ▸ h), hvalue]

theorem go_eq_ok {bound : Nat} {cs : List Char} {n m : Nat} (hn : n < bound) :
    readBelow.go bound cs n = .ok m ↔
      (∀ c ∈ cs, isDigit c = true) ∧ Nat.ofDigitChars 10 cs n = m ∧ m < bound := by
  constructor
  · intro h
    induction cs generalizing n with
    | nil =>
      cases h
      exact ⟨nofun, rfl, hn⟩
    | cons c cs ih =>
      rw [readBelow.go] at h
      split at h
      · rename_i hdigit
        dsimp only at h
        split at h
        · rename_i hstep
          obtain ⟨hdigits, hvalue, hm⟩ := ih hstep h
          exact ⟨List.forall_mem_cons.mpr ⟨hdigit, hdigits⟩, (Nat.ofDigitChars_cons ..).trans hvalue, hm⟩
        · cases h
      · cases h
  · rintro ⟨hdigits, rfl, hbound⟩
    exact go_digits hdigits hbound

/-- A number in decimal digits. Zeros may stand before it. -/
structure Digits (cs : List Char) (n : Nat) : Prop where
  ne_nil : cs ≠ []
  isDigit : ∀ c ∈ cs, isDigit c = true
  value : value cs = n

/-- A number as a reader of bounded integers accepts it: digits, with at most one plus sign before them. -/
inductive Numeral : List Char → Nat → Prop
  | plain {cs : List Char} {n : Nat} (h : Digits cs n) : Numeral cs n
  | signed {cs : List Char} {n : Nat} (h : Digits cs n) : Numeral ('+' :: cs) n

theorem Numeral.ne_nil {cs : List Char} {n : Nat} (h : Numeral cs n) : cs ≠ [] := by
  cases h with
  | plain h => exact h.ne_nil
  | signed => exact List.cons_ne_nil _ _

theorem Numeral.isBlank_of_mem {cs : List Char} {n : Nat} (h : Numeral cs n) {c : Char} (hc : c ∈ cs) :
    Text.isBlank c = false := by
  cases h with
  | plain h => exact isBlank_of_isDigit (h.isDigit c hc)
  | signed h =>
    obtain rfl | hc := List.mem_cons.mp hc
    · rfl
    · exact isBlank_of_isDigit (h.isDigit c hc)

theorem go_eq_ok_iff_digits {bound : Nat} {cs : List Char} {n : Nat} (hbound : 0 < bound) (hne : cs ≠ []) :
    readBelow.go bound cs 0 = .ok n ↔ Digits cs n ∧ n < bound := by
  rw [go_eq_ok hbound]
  exact ⟨fun ⟨hdigits, hvalue, hn⟩ => ⟨⟨hne, hdigits, hvalue⟩, hn⟩, fun ⟨h, hn⟩ => ⟨h.isDigit, h.value, hn⟩⟩

theorem readBelow_eq_ok {bound n : Nat} {s : String} (hbound : 0 < bound) :
    readBelow bound s = .ok n ↔ Numeral s.toList n ∧ n < bound := by
  unfold readBelow
  split
  · rename_i hnil
    rw [hnil]
    refine iff_of_false nofun ?_
    rintro ⟨h | h, -⟩
    exact h.ne_nil rfl
  · rename_i hplus
    rw [hplus]
    refine iff_of_false nofun ?_
    rintro ⟨h | h, -⟩
    · exact absurd (h.isDigit '+' List.mem_cons_self) (by decide)
    · exact h.ne_nil rfl
  · rename_i cs hne hplus
    rw [hplus, go_eq_ok_iff_digits hbound (by rintro rfl; exact hne rfl)]
    refine and_congr_left fun _ => ⟨.signed, ?_⟩
    rintro (h | h)
    · exact absurd (h.isDigit '+' List.mem_cons_self) (by decide)
    · exact h
  · rename_i cs hnil _ hplus
    rw [go_eq_ok_iff_digits hbound hnil]
    refine and_congr_left fun _ => ⟨.plain, fun h => ?_⟩
    cases hcs : s.toList with
    | nil => exact absurd hcs hnil
    | cons c cs =>
      rw [hcs] at h
      cases h with
      | plain h => exact h
      | signed h => exact absurd hcs (hplus _)

theorem readBelow_lt {bound : Nat} (hbound : 0 < bound) {s : String} {n : Nat}
    (h : readBelow bound s = .ok n) : n < bound := ((readBelow_eq_ok hbound).mp h).2

end CatalogClient.Decimal
