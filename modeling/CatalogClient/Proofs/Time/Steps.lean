import CatalogClient.Time.Calendar
import Mathlib.Logic.Basic
/-!
Steps through the calendar. Outside leap seconds a step adds nanoseconds; it leads nowhere exactly if the sum lies
outside the calendar.
-/

namespace CatalogClient

namespace UtcTime

variable {t : UtcTime} {n m : Int}

def InYears (first last : Int) (t : UtcTime) : Prop :=
  daysFromDate first 1 1 * 86400 ≤ t.wholeSeconds ∧ t.wholeSeconds < daysFromDate (last + 1) 1 1 * 86400

instance (first last : Int) (t : UtcTime) : Decidable (t.InYears first last) := inferInstanceAs (Decidable (_ ∧ _))

/-- The calendar has the time. -/
def InCalendar (t : UtcTime) : Prop := t.InYears (-262143) 262142

instance (t : UtcTime) : Decidable t.InCalendar := inferInstanceAs (Decidable (t.InYears _ _))

/-- A time of the calendar outside leap seconds. -/
def Ordinary (t : UtcTime) : Prop := t.inLeap = false ∧ t.InCalendar

/-- Clocks show no leap seconds, and nothing before the calendar. -/
def Shown (t : UtcTime) : Prop := t.inLeap = false ∧ earliest ≤ t.nanos

/-- The time so many seconds on. A leap second counts its nanoseconds beside those of the second behind it, so the
first of these seconds changes the time and not the count. -/
def plusSeconds (t : UtcTime) : Nat → UtcTime
  | 0 => t
  | n + 1 => ofNanos (t.nanos + (if t.inLeap then n else n + 1) * second)

theorem le_trans {a b c : UtcTime} (hab : a ≤ b) (hbc : b ≤ c) : a ≤ c := by
  change _ ∨ _ at hab hbc ⊢
  omega

theorem eq_ofNanos (h : t.inLeap = false) : t = ofNanos t.nanos := by
  obtain ⟨nanos, inLeap⟩ := t
  cases h
  rfl

theorem inCalendar_iff :
    t.InCalendar ↔ -8334601228800 ≤ t.wholeSeconds ∧ t.wholeSeconds < 8210266876800 := Iff.rfl

theorem earliest_eq : earliest = -8334601228800 * second := rfl

theorem tooLate_eq : tooLate = 8210266876800 * second := rfl

theorem inCalendar_ofNanos : (ofNanos n).InCalendar ↔ earliest ≤ n ∧ n < tooLate := by
  rw [inCalendar_iff, earliest_eq, tooLate_eq]
  change _ ≤ n / second ∧ n / second < _ ↔ _
  simp only [second]
  omega

theorem inRange?_eq : t.inRange? = if t.InCalendar then some t else none := by
  refine if_congr ?_ rfl rfl
  rw [inCalendar_iff, earliest_eq, tooLate_eq, second]
  omega

theorem ofNanos?_eq : ofNanos? n = if (ofNanos n).InCalendar then some (ofNanos n) else none :=
  if_congr inCalendar_ofNanos.symm rfl rfl

theorem InCalendar.earliest_le (h : t.InCalendar) : earliest ≤ t.nanos := by
  have hsecond : t.wholeSeconds * second ≤ t.nanos := by
    simp only [wholeSeconds, second]
    split <;> omega
  have hfirst := (inCalendar_iff.mp h).1
  rw [earliest_eq]
  simp only [second] at hsecond ⊢
  omega

theorem Ordinary.earliest_le_lt (h : t.Ordinary) : earliest ≤ t.nanos ∧ t.nanos < tooLate :=
  inCalendar_ofNanos.mp (eq_ofNanos h.1 ▸ h.2)

theorem step?_ofNanos : (ofNanos n).step? m = if (-longestStep ≤ m ∧ m ≤ longestStep) ∧
    (ofNanos (n + m)).InCalendar then some (ofNanos (n + m)) else none := by
  have hstep : (ofNanos n).stepFrom m = ofNanos? (n + m) := rfl
  rw [step?, hstep, ofNanos?_eq]
  exact (ite_and ..).symm

/-- A step back fails only where it leads out of the calendar, since no longer one is needed within it. -/
theorem step?_back (hn : (ofNanos n).InCalendar) (m : Nat) :
    (ofNanos n).step? (-m) = if earliest ≤ n - m then some (ofNanos (n - m)) else none := by
  have hrange := inCalendar_ofNanos.mp hn
  rw [step?_ofNanos, ← Int.sub_eq_add_neg]
  refine if_congr ?_ rfl rfl
  rw [inCalendar_ofNanos]
  simp only [earliest_eq, tooLate_eq, longestStep, second] at hrange ⊢
  omega

theorem stepFrom_zero : t.stepFrom 0 = if t.InCalendar then some t else none := by
  obtain ⟨nanos, inLeap⟩ := t
  cases inLeap with
  | false => exact (congrArg ofNanos? (Int.add_zero nanos)).trans ofNanos?_eq
  | true =>
    have hwithin : (wholeSeconds ⟨nanos, true⟩ + 1) * second ≤ nanos ∧
        ¬ (wholeSeconds ⟨nanos, true⟩ + 1) * second + second ≤ nanos := by
      simp only [wholeSeconds, if_true, second]
      omega
    simp only [stepFrom, Int.add_zero, if_true, if_neg hwithin.2, hwithin.1, decide_true]
    exact inRange?_eq

theorem stepFrom_succ (n : Nat) : t.stepFrom ((n + 1 : Nat) * second) =
    if (t.plusSeconds (n + 1)).InCalendar then some (t.plusSeconds (n + 1)) else none := by
  obtain ⟨nanos, inLeap⟩ := t
  cases inLeap with
  | false => exact ofNanos?_eq
  | true =>
    have hbehind : (wholeSeconds ⟨nanos, true⟩ + 1) * second + second ≤ nanos + (n + 1 : Nat) * second := by
      simp only [wholeSeconds, if_true, second]
      omega
    have hcount : nanos + (n + 1 : Nat) * second - second = nanos + n * second := by
      simp only [second]
      omega
    simp only [stepFrom, if_true, if_pos hbehind, hcount]
    exact ofNanos?_eq

/-- Whole seconds can be added exactly if the calendar has the time they lead to. -/
theorem addSeconds?_eq (hearly : earliest ≤ t.nanos) (n : Nat) :
    t.addSeconds? n = if (t.plusSeconds n).InCalendar then some (t.plusSeconds n) else none := by
  by_cases hshort : (n : Int) ≤ 9223372036854775807 / 1000
  · have hlong : -longestStep ≤ n * second ∧ n * second ≤ longestStep := by
      simp only [longestStep, second]
      omega
    rw [addSeconds?, if_pos hshort, step?, if_pos hlong]
    cases n with
    | zero => exact stepFrom_zero
    | succ n => exact stepFrom_succ n
  · -- So many seconds lead beyond the calendar from anywhere in it.
    cases n with
    | zero => exact absurd (by decide) hshort
    | succ n =>
      have hlate : ¬ (t.plusSeconds (n + 1)).InCalendar := by
        rw [plusSeconds, inCalendar_ofNanos, tooLate_eq]
        simp only [earliest_eq, second] at hearly ⊢
        split <;> omega
      rw [addSeconds?, if_neg hshort, if_neg hlate]

theorem plusSeconds_inCalendar (ht : t.InYears 1970 9999) {n : Nat} (hn : n ≤ 7956864576000) :
    (t.plusSeconds n).InCalendar := by
  have hyears : 0 ≤ t.wholeSeconds ∧ t.wholeSeconds < 253402300800 := ht
  cases n with
  | zero =>
    rw [plusSeconds, inCalendar_iff]
    omega
  | succ n =>
    rw [plusSeconds, inCalendar_ofNanos, earliest_eq, tooLate_eq]
    simp only [wholeSeconds, second] at hyears ⊢
    cases hleap : t.inLeap <;> simp only [hleap, if_true, Bool.false_eq_true, if_false] at hyears ⊢ <;> omega

end UtcTime

end CatalogClient
