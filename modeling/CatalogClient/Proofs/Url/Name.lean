import CatalogClient.Url.Host
import CatalogClient.Proofs.Url.Escape
import CatalogClient.Proofs.Url.Punycode
/-!
Domain names: folding the case of a text twice is folding it once, and the ASCII form of a name is its
own ASCII form.
-/

namespace CatalogClient.Host

theorem toNat_ofNat {n : Nat} (h : n.isValidChar) : (Char.ofNat n).toNat = n := by
  rw [Char.ofNat, dif_pos h]
  rfl

/-- The numbers of the characters that case folding leaves alone. -/
def Folded (n : Nat) : Prop :=
  ¬ (0x41 ≤ n ∧ n ≤ 0x5A) ∧ (n ≠ 0xAD ∧ n ≠ 0x200B ∧ n ≠ 0x2060 ∧ n ≠ 0xFEFF) ∧
    ¬ (0xC0 ≤ n ∧ n ≤ 0xDE ∧ n ≠ 0xD7) ∧
    (0x100 ≤ n ∧ n ≤ 0x17F → n ≠ 0x130 ∧ n ≠ 0x178 ∧ n ≠ 0x17F ∧
      ¬ ((n ≤ 0x137 ∨ (0x14A ≤ n ∧ n ≤ 0x177)) ∧ n % 2 = 0) ∧
      ¬ (((0x139 ≤ n ∧ n ≤ 0x148) ∨ (0x179 ≤ n ∧ n ≤ 0x17E)) ∧ n % 2 = 1)) ∧
    ¬ (0x391 ≤ n ∧ n ≤ 0x3A9) ∧ ¬ (0x400 ≤ n ∧ n ≤ 0x42F) ∧
    (n ≠ 0x3002 ∧ n ≠ 0xFF0E ∧ n ≠ 0xFF61) ∧ ¬ (0xFF01 ≤ n ∧ n ≤ 0xFF5E)

instance (n : Nat) : Decidable (Folded n) := by
  unfold Folded
  infer_instance

theorem foldCase_of_folded {c : Char} (h : Folded c.toNat) : foldCase c = [c] := by
  by_cases hascii : c.toNat < 0x80
  · refine Url.forall_ascii (q := fun c => Folded c.toNat → foldCase c = [c]) ?_ hascii h
    decide
  · obtain ⟨-, h1, h2, h3, h4, h5, h6, h7⟩ := h
    unfold foldCase
    dsimp only
    rw [if_neg hascii, if_neg (by omega), if_neg h2]
    split
    · rename_i hlatin
      obtain ⟨h8, h9, h10, h11, h12⟩ := h3 hlatin
      rw [if_neg h8, if_neg h9, if_neg h10, if_neg h11, if_neg h12]
    · rw [if_neg (by omega), if_neg (by omega), if_neg (by omega)]

theorem folded_of_mem_foldCase {c d : Char} (h : d ∈ foldCase c) : Folded d.toNat := by
  have hshift : ∀ {k : Nat}, d ∈ [Char.ofNat k] → k < 0xD800 → d.toNat = k := by
    intro k hd hk
    rw [List.mem_singleton.mp hd, toNat_ofNat (.inl hk)]
  have hlower : ∀ {e : Char}, e.toNat < 0x80 → Folded e.toLower.toNat := by
    intro e he
    refine Url.forall_ascii (q := fun e => Folded e.toLower.toNat) ?_ he
    decide
  unfold foldCase at h
  dsimp only at h
  split at h
  · rename_i hascii
    rw [List.mem_singleton.mp h]
    exact hlower hascii
  split at h
  · cases h
  split at h
  · rw [hshift h (by omega)]
    unfold Folded
    omega
  split at h
  · split at h
    · simp only [List.mem_cons, List.not_mem_nil, or_false] at h
      rcases h with rfl | rfl <;> decide
    split at h
    · rw [hshift h (by omega)]
      decide
    split at h
    · rw [List.mem_singleton.mp h]
      decide
    split at h
    · rw [hshift h (by omega)]
      unfold Folded
      omega
    split at h
    · rw [hshift h (by omega)]
      unfold Folded
      omega
    · rw [List.mem_singleton.mp h]
      unfold Folded
      omega
  split at h
  · rw [hshift h (by omega)]
    unfold Folded
    omega
  split at h
  · rw [hshift h (by omega)]
    unfold Folded
    omega
  split at h
  · rw [hshift h (by omega)]
    unfold Folded
    omega
  split at h
  · rw [List.mem_singleton.mp h]
    decide
  split at h
  · rw [List.mem_singleton.mp h]
    refine hlower ?_
    rw [toNat_ofNat (.inl (by omega))]
    omega
  · rw [List.mem_singleton.mp h]
    unfold Folded
    omega

variable {label name out : List Char} {c : Char}

/-- The characters of a name whose case is folded. -/
def Fit (c : Char) : Prop := Folded c.toNat ∧ isForbidden c = false

theorem flatMap_foldCase {cs : List Char} (h : ∀ c ∈ cs, Folded c.toNat) : cs.flatMap foldCase = cs := by
  induction cs with
  | nil => rfl
  | cons c cs ih =>
    rw [List.flatMap_cons, foldCase_of_folded (h c List.mem_cons_self),
      ih fun d hd => h d (List.mem_cons_of_mem _ hd)]
    rfl

theorem fit_of_isDigit (h : Url.Punycode.isDigit c = true) : Fit c ∧ c ≠ '.' ∧ c.toNat < 128 := by
  have hlt : c.toNat < 128 := by
    simp only [Url.Punycode.isDigit, Bool.or_eq_true, Bool.and_eq_true, decide_eq_true_eq, Char.le_def,
      UInt32.le_iff_toNat_le] at h
    rcases h with ⟨-, h⟩ | ⟨-, h⟩
    all_goals exact Nat.lt_of_le_of_lt h (by decide)
  refine ⟨?_, ?_, hlt⟩
  · refine Url.forall_ascii (q := fun c => Url.Punycode.isDigit c = true → Fit c) ?_ hlt h
    unfold Fit
    decide
  · rintro rfl
    cases h

/-- What a label of an ASCII name is made of. -/
def Plain (label : List Char) : Prop := ∀ c ∈ label, Fit c ∧ c ≠ '.' ∧ c.toNat < 128

theorem plain_encode (hfit : ∀ c ∈ label, Fit c) (hdot : '.' ∉ label) : Plain (Url.Punycode.encode label) := by
  intro c hc
  rcases Url.Punycode.mem_encode hc with ⟨hmem, hlt⟩ | rfl | hdigit
  · exact ⟨hfit c hmem, fun heq => hdot (heq ▸ hmem), hlt⟩
  · refine ⟨⟨?_, ?_⟩, ?_⟩ <;> decide
  · exact fit_of_isDigit hdigit

theorem plain_prefixed (h : Plain label) : Plain (['x', 'n', '-', '-'] ++ label) := by
  intro c hc
  rcases List.mem_append.mp hc with hc | hc
  · simp only [List.mem_cons, List.not_mem_nil, or_false] at hc
    rcases hc with rfl | rfl | rfl | rfl
    all_goals exact ⟨⟨by decide, by decide⟩, by decide, by decide⟩
  · exact h c hc

/-- The ASCII form of a label is one that stays as it is. -/
theorem asciiLabel?_stays (hfit : ∀ c ∈ label, Fit c) (hdot : '.' ∉ label)
    (h : asciiLabel? label = some out) : Plain out ∧ asciiLabel? out = some out := by
  have hplain : (∀ c ∈ label, c.toNat < 128) → Plain label :=
    fun hlt c hc => ⟨hfit c hc, fun heq => hdot (heq ▸ hc), hlt c hc⟩
  unfold asciiLabel? at h
  split at h
  · rename_i rest
    obtain ⟨decoded, hdecode, hmatch⟩ := Option.bind_eq_some_iff.mp h
    split at hmatch
    · rename_i hneeded
      cases hmatch
      have hrest : Plain rest := by
        rw [← hneeded.2.1] at hfit hdot ⊢
        intro c hc
        have hlt : c.toNat < 128 := by
          rcases Url.Punycode.mem_encode hc with ⟨-, hlt⟩ | rfl | hdigit
          · exact hlt
          · decide
          · exact (fit_of_isDigit hdigit).2.2
        exact ⟨hfit c (by simp [hc]), fun heq => hdot (by simpa [heq] using hc), hlt⟩
      exact ⟨plain_prefixed hrest, h⟩
    · cases hmatch
  · rename_i hbare
    split at h
    · rename_i hascii
      cases h
      refine ⟨hplain fun c hc => of_decide_eq_true (List.all_eq_true.mp hascii c hc), ?_⟩
      unfold asciiLabel?
      split
      · exact absurd rfl (hbare _)
      · exact if_pos hascii
    · rename_i hascii
      cases h
      refine ⟨plain_prefixed (plain_encode hfit hdot), ?_⟩
      have hbeyond : label.any (128 ≤ ·.toNat) = true := by
        simpa [List.all_eq_true, List.any_eq_true] using hascii
      have hforbidden : ¬ label.any isForbidden = true := by
        simpa [List.any_eq_true] using fun c hc => (hfit c hc).2
      show ((Url.Punycode.decode? (Url.Punycode.encode label)).bind fun decoded => _) = _
      rw [Url.Punycode.decode?_encode]
      exact if_pos ⟨hbeyond, rfl, flatMap_foldCase fun c hc => (hfit c hc).1, hforbidden⟩

theorem asciiLabels_stay {labels outs : List (List Char)}
    (hfit : ∀ label ∈ labels, (∀ c ∈ label, Fit c) ∧ '.' ∉ label)
    (h : labels.mapM asciiLabel? = some outs) :
    (∀ out ∈ outs, Plain out) ∧ outs.mapM asciiLabel? = some outs ∧ outs.length = labels.length := by
  induction labels generalizing outs with
  | nil =>
    cases h
    exact ⟨fun out hout => absurd hout List.not_mem_nil, rfl, rfl⟩
  | cons label labels ih =>
    rw [List.mapM_cons] at h
    obtain ⟨out, hout, h⟩ := Option.bind_eq_some_iff.mp h
    obtain ⟨outs, houts, h⟩ := Option.bind_eq_some_iff.mp h
    cases h
    have hlabel := hfit label List.mem_cons_self
    obtain ⟨hplain, hstays⟩ := asciiLabel?_stays hlabel.1 hlabel.2 hout
    obtain ⟨hplains, hstay, hlength⟩ := ih (fun l hl => hfit l (List.mem_cons_of_mem _ hl)) houts
    refine ⟨?_, ?_, congrArg (· + 1) hlength⟩
    · intro o ho
      rcases List.mem_cons.mp ho with rfl | ho
      · exact hplain
      · exact hplains o ho
    · rw [List.mapM_cons, hstays, hstay]
      rfl

/-- What an ASCII name is made of: labels, and the stops between them. -/
def PlainName (name : List Char) : Prop := ∀ c ∈ name, Fit c ∧ c.toNat < 128

theorem asciiName?_labels {labels : List (List Char)} (hne : labels ≠ [])
    (hplain : ∀ label ∈ labels, Plain label) (hstay : labels.mapM asciiLabel? = some labels) :
    PlainName (['.'].intercalate labels) ∧
      asciiName? (['.'].intercalate labels) = some (['.'].intercalate labels) := by
  have hname : PlainName (['.'].intercalate labels) := by
    intro c hc
    rcases Text.mem_intercalate hc with rfl | ⟨label, hlabel, hmem⟩
    · exact ⟨⟨by decide, by decide⟩, by decide⟩
    · obtain ⟨hfit, -, hlt⟩ := hplain label hlabel c hmem
      exact ⟨hfit, hlt⟩
  refine ⟨hname, ?_⟩
  have hforbidden : ¬ (['.'].intercalate labels).any isForbidden = true := by
    simpa [List.any_eq_true] using fun c hc => (hname c hc).1.2
  rw [asciiName?, flatMap_foldCase fun c hc => (hname c hc).1.1]
  rw [if_neg hforbidden, Text.splitList_intercalate hne fun l hl hdot => (hplain l hl _ hdot).2.1 rfl, hstay]
  rfl

/-- The ASCII form of a name is its own ASCII form. -/
theorem asciiName?_stays {cs : List Char} (h : asciiName? cs = some name) :
    PlainName name ∧ asciiName? name = some name := by
  unfold asciiName? at h
  dsimp only at h
  split at h
  · cases h
  · rename_i hforbidden
    obtain ⟨outs, houts, h⟩ := Option.bind_eq_some_iff.mp h
    cases h
    have hfit : ∀ label ∈ Text.splitList '.' (cs.flatMap foldCase), (∀ c ∈ label, Fit c) ∧ '.' ∉ label := by
      refine fun label hlabel => ⟨fun c hc => ?_, Text.notMem_of_mem_splitList hlabel⟩
      have hmem := Text.mem_of_mem_splitList hlabel hc
      obtain ⟨d, -, hd⟩ := List.mem_flatMap.mp hmem
      refine ⟨folded_of_mem_foldCase hd, ?_⟩
      simpa using fun heq => hforbidden (List.any_eq_true.mpr ⟨c, hmem, heq⟩)
    obtain ⟨hplain, hstay, hlength⟩ := asciiLabels_stay hfit houts
    refine asciiName?_labels ?_ hplain hstay
    rintro rfl
    exact Text.splitList_ne_nil _ _ (List.length_eq_zero_iff.mp hlength.symm)

theorem PlainName.notMem (h : PlainName name) (hc : isForbidden c = true) : c ∉ name := by
  intro hmem
  have hfit := (h c hmem).1.2
  rw [hc] at hfit
  cases hfit

/-- A name is read as itself. -/
theorem readSpecial_name (hne : name ≠ []) (hplain : PlainName name)
    (hstays : asciiName? name = some name) :
    readSpecial name = if endsInNumber name then readIpv4 name else .ok (.domain (String.ofList name)) := by
  have hbytes : Text.Utf8.decode? (Url.unescape name) = some (String.ofList name) := by
    rw [Url.unescape_of_notMem (hplain.notMem (by decide))]
    simpa [Text.Utf8.encode] using Text.Utf8.decode?_encode (String.ofList name)
  unfold readSpecial
  split
  · exact absurd List.mem_cons_self (hplain.notMem (by decide))
  · rw [hbytes, Option.bind_some, String.toList_ofList, hstays]
    cases name with
    | nil => exact absurd rfl hne
    | cons c cs => rfl

end CatalogClient.Host
