import Mathlib.Data.List.Forall2
import Mathlib.Data.List.Nodup
import Mathlib.Tactic.MkIffOfInductiveProp
import CatalogClient.Method
import CatalogClient.Search.Operator
import CatalogClient.Proofs.Text.Lines
/-!
Which texts are read as which token: those that spell it, letter by letter, up to the case of the letters from A to Z
and to blanks around it. No text spells two tokens of one enumeration.
-/

namespace CatalogClient

namespace Text

/-- The same character, or the capital and the small form of a letter from A to Z. -/
def SameLetter (c d : Char) : Prop :=
  c = d ∨ (c.isUpper ∧ d.toNat = c.toNat + 32) ∨ (d.isUpper ∧ c.toNat = d.toNat + 32)

/-- A text that is a word in letters of either case, with nothing around it but blanks. -/
def Spells (text word : String) : Prop :=
  ∃ before letters after, text.toList = before ++ letters ++ after ∧ (∀ c ∈ before, isBlank c) ∧
    (∀ c ∈ after, isBlank c) ∧ List.Forall₂ SameLetter letters word.toList

/-- A word of its own: there is something of it, and no blank at either end. -/
@[mk_iff]
structure Tight (word : List Char) : Prop where
  ne_nil : word ≠ []
  head : ∀ c ∈ word.head?, isBlank c = false
  last : ∀ c ∈ word.getLast?, isBlank c = false

-- A quantifier over characters may be decided by going through all of them, so the ends are looked at themselves.
instance (word : List Char) : Decidable (Tight word) :=
  decidable_of_iff (word ≠ [] ∧ word.head?.all (! isBlank ·) ∧ word.getLast?.all (! isBlank ·))
    (by simp [tight_iff, Option.all_eq_true])

variable {c d : Char}

theorem isUpper_iff : c.isUpper ↔ 65 ≤ c.toNat ∧ c.toNat ≤ 90 := by
  have hval : c.isUpper ↔ 'A'.val ≤ c.val ∧ c.val ≤ 'Z'.val := decide_eq_true_iff
  rw [hval, UInt32.le_iff_toNat_le, UInt32.le_iff_toNat_le]
  rfl

theorem toNat_toLower (c : Char) : c.toLower.toNat = if c.isUpper then c.toNat + 32 else c.toNat := by
  by_cases h : c.val ≥ 'A'.val ∧ c.val ≤ 'Z'.val
  · have hval : c.toLower.val = c.val + ('a'.val - 'A'.val) := congrArg Char.val (dif_pos h)
    have hupper : c.isUpper := decide_eq_true h
    have hrange := isUpper_iff.mp hupper
    rw [if_pos hupper, ← Char.toNat_val, hval, UInt32.toNat_add, Char.toNat_val]
    exact Nat.mod_eq_of_lt (show c.toNat + 32 < 2 ^ 32 by omega)
  · have hsame : c.toLower = c := dif_neg h
    have hupper : ¬ c.isUpper := fun hc => h (of_decide_eq_true hc)
    rw [if_neg hupper, hsame]

theorem toLower_eq_iff : c.toLower = d.toLower ↔ SameLetter c d := by
  rw [← Char.toNat_inj, toNat_toLower, toNat_toLower, SameLetter, ← Char.toNat_inj]
  simp only [isUpper_iff]
  split <;> split <;> omega

theorem isBlank_of_letter (hfrom : 65 ≤ c.toNat) (hto : c.toNat ≤ 122) : isBlank c = false := by
  simp [isBlank]
  omega

/-- A blank has no other case. -/
theorem SameLetter.isBlank_eq (h : SameLetter c d) : isBlank c = isBlank d := by
  simp only [SameLetter, isUpper_iff] at h
  obtain rfl | ⟨hc, hd⟩ | ⟨hd, hc⟩ := h
  · rfl
  all_goals rw [isBlank_of_letter (by omega) (by omega), isBlank_of_letter (by omega) (by omega)]

theorem sameIgnoringCase_iff {text word : String} :
    sameIgnoringCase text word ↔ List.Forall₂ SameLetter text.toList word.toList := by
  rw [sameIgnoringCase, beq_iff_eq, ← List.forall₂_eq_eq_eq, List.forall₂_map_left_iff, List.forall₂_map_right_iff]
  simp only [toLower_eq_iff]

theorem head_of_sameLetters {letters word : List Char} (h : List.Forall₂ SameLetter letters word)
    (hword : ∀ d ∈ word.head?, isBlank d = false) : ∀ c ∈ letters.head?, isBlank c = false := by
  cases h with
  | nil => exact hword
  | cons hsame hrest =>
    rintro c ⟨⟩
    exact hsame.isBlank_eq.trans (hword _ rfl)

theorem Tight.of_sameLetters {letters word : List Char} (hword : Tight word)
    (h : List.Forall₂ SameLetter letters word) : Tight letters where
  ne_nil := fun hnil => hword.ne_nil (List.forall₂_nil_left_iff.mp (hnil ▸ h))
  head := head_of_sameLetters h hword.head
  last := by
    rw [← List.head?_reverse]
    exact head_of_sameLetters (List.forall₂_reverse_iff.mpr h) (List.head?_reverse ▸ hword.last)

theorem spells_iff {text word : String} (hword : Tight word.toList) :
    Spells text word ↔ sameIgnoringCase (trim text) word := by
  rw [sameIgnoringCase_iff, trim, String.toList_ofList]
  constructor
  · rintro ⟨before, letters, after, htext, hbefore, hafter, hletters⟩
    have htight := hword.of_sameLetters hletters
    rwa [htext, trimList_padded hbefore hafter htight.ne_nil htight.head htight.last]
  · intro h
    obtain ⟨before, after, htext, hbefore, hafter⟩ := exists_trimList text.toList
    exact ⟨before, _, after, htext, hbefore, hafter, h⟩

theorem spells_self (word : String) : Spells word word :=
  ⟨[], word.toList, [], by simp, by simp, by simp, List.forall₂_same.mpr fun _ _ => .inl rfl⟩

end Text

namespace WireToken

variable {α : Type} [WireToken α]

/-- Tokens that differ in more than the case of letters, each a word of its own. -/
structure Distinct (α : Type) [WireToken α] : Prop where
  nodup : ((all : List α).map fun a => (token a).toList.map Char.toLower).Nodup
  tight : ∀ a ∈ (all : List α), Text.Tight (token a).toList

/-- A text is read exactly if it spells a token, which is the only one and the one it is read as. -/
structure Unambiguous (α : Type) [WireToken α] : Prop where
  read : ∀ text, (∃ a : α, parse? text = some a) ↔ ∃ a : α, Text.Spells text (token a)
  unique : ∀ text (a b : α), Text.Spells text (token a) → Text.Spells text (token b) → a = b
  spelled : ∀ text (a : α), parse? text = some a ↔ Text.Spells text (token a)
  undone : ∀ a : α, parse? (token a) = some a

namespace Distinct

variable {text : String} {a b : α}

theorem spells_iff (h : Distinct α) :
    Text.Spells text (token a) ↔ Text.sameIgnoringCase (Text.trim text) (token a) :=
  Text.spells_iff (h.tight a (mem_all a))

theorem eq_of_spells (h : Distinct α) (ha : Text.Spells text (token a)) (hb : Text.Spells text (token b)) : a = b := by
  rw [h.spells_iff, Text.sameIgnoringCase, beq_iff_eq] at ha hb
  exact List.inj_on_of_nodup_map h.nodup (mem_all a) (mem_all b) (ha.symm.trans hb)

theorem spells_of_parse? (h : Distinct α) (hparse : parse? text = some a) : Text.Spells text (token a) :=
  h.spells_iff.mpr (List.find?_some (p := fun a => Text.sameIgnoringCase (Text.trim text) (token a)) hparse)

theorem parse?_eq_some (h : Distinct α) : parse? text = some a ↔ Text.Spells text (token a) := by
  refine ⟨h.spells_of_parse?, fun hspells => ?_⟩
  have hsome : (parse? (α := α) text).isSome := List.find?_isSome.mpr ⟨a, mem_all a, h.spells_iff.mp hspells⟩
  obtain ⟨b, hb⟩ := Option.isSome_iff_exists.mp hsome
  rwa [h.eq_of_spells hspells (h.spells_of_parse? hb)]

theorem unambiguous (h : Distinct α) : Unambiguous α where
  read _ := exists_congr fun _ => h.parse?_eq_some
  unique _ _ _ := h.eq_of_spells
  spelled _ _ := h.parse?_eq_some
  undone _ := h.parse?_eq_some.mpr (Text.spells_self _)

end Distinct

end WireToken

theorem Method.tokens_distinct : WireToken.Distinct Method where
  nodup := by decide
  tight := by decide +kernel

theorem Operator.tokens_distinct : WireToken.Distinct Operator where
  nodup := by decide +kernel
  tight := by decide +kernel

end CatalogClient
