import CatalogClient.Proofs.Json.RoundTrip
/-!
The text of a value holds no control characters, whatever stands in its strings.
-/

namespace CatalogClient.Json

def Printable (cs : List Char) : Prop := ∀ c ∈ cs, 0x20 ≤ c.toNat

-- Given here, since the instance found for a statement over characters may run through all of them.
instance (cs : List Char) : Decidable (Printable cs) := List.decidableBAll (fun c : Char => 0x20 ≤ c.toNat) cs

variable {cs ds : List Char}

theorem printable_nil : Printable [] := by decide

theorem Printable.append (hc : Printable cs) (hd : Printable ds) : Printable (cs ++ ds) :=
  List.forall_mem_append.mpr ⟨hc, hd⟩

theorem Printable.cons {c : Char} (hc : 0x20 ≤ c.toNat) (hd : Printable cs) : Printable (c :: cs) :=
  List.forall_mem_cons.mpr ⟨hc, hd⟩

theorem Printable.notMem {c : Char} (h : Printable cs) (hc : c.toNat < 0x20) : c ∉ cs :=
  fun hmem => absurd (h c hmem) (by omega)

theorem printable_hex : ∀ n < 0x20,
    Printable ['\\', 'u', '0', '0', Nat.digitChar (n / 16), Nat.digitChar (n % 16)] := by
  decide

theorem printable_escapeChar (c : Char) : Printable (escapeChar c) := by
  by_cases hshort : c ∈ ['"', '\\', '\x08', '\x0c', '\n', '\r', '\t']
  · simp only [List.mem_cons, List.not_mem_nil, or_false] at hshort
    obtain rfl | rfl | rfl | rfl | rfl | rfl | rfl := hshort <;> decide
  · simp only [List.mem_cons, List.not_mem_nil, or_false, not_or] at hshort
    obtain ⟨hquote, hslash, hb, hf, hn, hr, ht⟩ := hshort
    by_cases hcontrol : c.toNat < 0x20
    · simpa [escapeChar, *] using printable_hex _ hcontrol
    · have hself : escapeChar c = [c] := by simp [escapeChar, *]
      exact hself ▸ .cons (by omega) printable_nil

theorem printable_writeString (s : String) : Printable (writeString s) := by
  refine .cons (by decide) (.append (fun c hc => ?_) (.cons (by decide) printable_nil))
  obtain ⟨d, -, hd⟩ := List.mem_flatMap.mp hc
  exact printable_escapeChar d c hd

theorem printable_of_isDigit (h : ∀ c ∈ cs, Decimal.isDigit c) : Printable cs := by
  intro c hc
  have hdigit := h c hc
  simp only [Decimal.isDigit, Bool.and_eq_true, decide_eq_true_iff, Char.le_def, UInt32.le_iff_toNat_le] at hdigit
  exact Nat.le_trans (by decide) hdigit.1

theorem printable_writeInt (n : Int) : Printable (Decimal.writeInt n) := by
  cases n with
  | ofNat n => exact printable_of_isDigit fun c hc => Decimal.isDigit_of_mem_write hc
  | negSucc n => exact .cons (by decide) (printable_of_isDigit fun c hc => Decimal.isDigit_of_mem_write hc)

theorem printable_writeItems {xs : List Json} (h : ∀ x ∈ xs, Printable (write x)) : Printable (writeItems xs) := by
  induction xs with
  | nil => exact .cons (by decide) printable_nil
  | cons x xs ih =>
    obtain ⟨hx, hxs⟩ := List.forall_mem_cons.mp h
    cases xs with
    | nil => exact hx.append (.cons (by decide) printable_nil)
    | cons y ys => exact hx.append (.cons (by decide) (ih hxs))

theorem printable_writeMembers {ms : List (String × Json)} (h : ∀ m ∈ ms, Printable (write m.2)) :
    Printable (writeMembers ms) := by
  induction ms with
  | nil => exact .cons (by decide) printable_nil
  | cons m ms ih =>
    obtain ⟨hm, hms⟩ := List.forall_mem_cons.mp h
    have hfront : Printable (writeString m.1 ++ ':' :: write m.2) :=
      (printable_writeString m.1).append (.cons (by decide) hm)
    cases ms with
    | nil => exact hfront.append (.cons (by decide) printable_nil)
    | cons n ns => exact hfront.append (.cons (by decide) (ih hms))

theorem printable_write {j : Json} (hj : j.Whole) : Printable (write j) := by
  induction hj with
  | null => decide
  | bool b => cases b <;> decide
  | integer n h => exact printable_writeInt n
  | string s => exact printable_writeString s
  | array _ ih => exact .cons (by decide) (printable_writeItems ih)
  | object _ ih => exact .cons (by decide) (printable_writeMembers ih)

end CatalogClient.Json
