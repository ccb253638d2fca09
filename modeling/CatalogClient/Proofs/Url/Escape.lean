import CatalogClient.Proofs.Url.Form
/-!
Percent-encoding with any set of kept characters: what is kept stays, what is written is kept the next
time, and what is written so is read back where percent signs are not kept.
-/

namespace CatalogClient

namespace Url

variable {kept : Char → Bool} {c : Char} {cs : List Char}

theorem escape_of_kept (h : ∀ c ∈ cs, kept c = true) : escape kept cs = cs := by
  induction cs with
  | nil => rfl
  | cons c cs ih =>
    have hc : escapeChar kept c = [c] := if_pos (h c List.mem_cons_self)
    rw [escape, List.flatMap_cons, hc]
    exact congrArg (c :: ·) (ih fun d hd => h d (List.mem_cons_of_mem _ hd))

/-- Whatever an escape is made of. -/
def inEscape (c : Char) : Bool := c = '%' || isAsciiAlphanumeric c

theorem inEscape_escapeByte (b : UInt8) (hc : c ∈ escapeByte b) : inEscape c = true := by
  have hhex : ∀ n : Fin 16, inEscape (hexDigit n.val) = true := by decide
  have hb : b.toNat < 256 := b.toNat_lt
  simp only [escapeByte, List.mem_cons, List.not_mem_nil, or_false] at hc
  rcases hc with rfl | rfl | rfl
  · rfl
  · exact hhex ⟨b.toNat / 16, by omega⟩
  · exact hhex ⟨b.toNat % 16, by omega⟩

theorem mem_escape (h : c ∈ escape kept cs) : (c ∈ cs ∧ kept c = true) ∨ inEscape c = true := by
  obtain ⟨d, hd, hmem⟩ := List.mem_flatMap.mp h
  unfold escapeChar at hmem
  split at hmem
  · rename_i hkept
    cases List.mem_singleton.mp hmem
    exact .inl ⟨hd, hkept⟩
  · obtain ⟨b, -, hmem⟩ := List.mem_flatMap.mp hmem
    exact .inr (inEscape_escapeByte b hmem)

theorem escape_eq_nil (h : escape kept cs = []) : cs = [] := by
  cases cs with
  | nil => rfl
  | cons c cs =>
    rw [escape, List.flatMap_cons, List.append_eq_nil_iff] at h
    have hhead := h.1
    unfold escapeChar at hhead
    split at hhead
    · cases hhead
    · obtain ⟨b, bs, hbs⟩ := List.exists_cons_of_ne_nil (String.utf8EncodeChar_ne_nil (c := c))
      rw [hbs] at hhead
      cases hhead

theorem unescape_escape (h : kept '%' = false) (cs : List Char) :
    unescape (escape kept cs) = cs.flatMap String.utf8EncodeChar := by
  induction cs with
  | nil => rfl
  | cons c cs ih =>
    rw [escape, List.flatMap_cons, List.flatMap_cons, ← ih, ← escape]
    unfold escapeChar
    split
    · rename_i hc
      exact unescape_cons (fun heq => by rw [heq, h] at hc; cases hc) _
    · exact unescape_escapeBytes _ _

theorem unescape_of_notMem (h : '%' ∉ cs) : unescape cs = cs.flatMap String.utf8EncodeChar := by
  induction cs with
  | nil => rfl
  | cons c cs ih =>
    rw [List.mem_cons, not_or] at h
    rw [unescape_cons (Ne.symm h.1), ih h.2, List.flatMap_cons]

/-- The text that a segment stands for, if it stands for one. -/
def unescapeSegment? (s : String) : Option String := Text.Utf8.decode? (unescape s.toList)

theorem unescapeSegment?_escapeSegment (s : String) : unescapeSegment? (escapeSegment s) = some s := by
  rw [unescapeSegment?, escapeSegment, String.toList_ofList, unescape_escape (by decide)]
  exact Text.Utf8.decode?_encode s

theorem forall_ascii {q : Char → Prop} (h : ∀ n : Fin 128, q (Char.ofNat n)) (hc : c.toNat < 128) :
    q c := by
  have hq := h ⟨c.toNat, hc⟩
  rwa [Char.ofNat_toNat] at hq

theorem inEscape_lt (h : inEscape c = true) : c.toNat < 128 := by
  simp only [inEscape, isAsciiAlphanumeric, Bool.or_eq_true, Bool.and_eq_true, decide_eq_true_eq,
    Char.le_def, UInt32.le_iff_toNat_le] at h
  rcases h with rfl | (⟨-, h⟩ | ⟨-, h⟩) | ⟨-, h⟩
  · decide
  all_goals exact Nat.lt_of_le_of_lt h (by decide)

/-- Escapes are kept wherever they may stand. -/
theorem kept_of_inEscape (h : inEscape c = true) :
    keptInUserinfo c = true ∧ keptInPath c = true ∧ keptInQuery true c = true ∧
      keptInFragment c = true := by
  refine forall_ascii (q := fun c => inEscape c = true → keptInUserinfo c = true ∧
    keptInPath c = true ∧ keptInQuery true c = true ∧ keptInFragment c = true) ?_ (inEscape_lt h) h
  decide

end Url

end CatalogClient
