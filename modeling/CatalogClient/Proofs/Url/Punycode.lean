import CatalogClient.Url.Punycode
import Mathlib.Data.List.Sort
/-!
Punycode is read back. The decoder goes through the insertions in the order in which the encoder writes
them; between two of them both count the same steps, the encoder in its difference and the decoder in
its position.
-/

namespace CatalogClient.Url.Punycode

theorem threshold_le (k bias : Nat) : threshold k bias ≤ 26 := by
  unfold threshold
  split
  · omega
  · split <;> omega

theorem digitValue?_digit {n : Nat} (h : n < 36) : digitValue? (digit n) = some n := by
  have hall : ∀ n : Fin 36, digitValue? (digit n.val) = some n.val := by decide
  exact hall ⟨n, h⟩

/-- The letters and numbers that differences are written with. -/
def isDigit (c : Char) : Bool := ('a' ≤ c && c ≤ 'z') || ('0' ≤ c && c ≤ '9')

theorem isDigit_digit {n : Nat} (h : n < 36) : isDigit (digit n) = true := by
  have hall : ∀ n : Fin 36, isDigit (digit n.val) = true := by decide
  exact hall ⟨n, h⟩

section Delta

variable (bias k q : Nat)

theorem isDigit_of_mem_encodeDelta {c : Char} (h : c ∈ encodeDelta bias k q) : isDigit c = true := by
  induction k, q using encodeDelta.induct bias with
  | case1 k q t hlt =>
    have ht : t ≤ 26 := threshold_le k bias
    rw [encodeDelta, if_pos hlt, List.mem_singleton] at h
    rw [h]
    exact isDigit_digit (by omega)
  | case2 k q t hge ih =>
    have ht : t ≤ 26 := threshold_le k bias
    have hmod : (q - t) % (36 - t) < 36 - t := Nat.mod_lt _ (by omega)
    rw [encodeDelta, if_neg hge, List.mem_cons] at h
    rcases h with rfl | h
    · exact isDigit_digit (n := t + (q - t) % (36 - t)) (by omega)
    · exact ih h

theorem encodeDelta_ne_nil : encodeDelta bias k q ≠ [] := by
  rw [encodeDelta]
  split <;> simp

theorem decodeDelta_encodeDelta (weight i : Nat) (rest : List Char) :
    decodeDelta bias k weight i (encodeDelta bias k q ++ rest) = some (i + q * weight, rest) := by
  induction k, q using encodeDelta.induct bias generalizing weight i with
  | case1 k q t hlt =>
    have ht : t ≤ 26 := threshold_le k bias
    rw [encodeDelta, if_pos hlt, List.singleton_append, decodeDelta, digitValue?_digit (by omega)]
    exact if_pos hlt
  | case2 k q t hge ih =>
    have ht : t ≤ 26 := threshold_le k bias
    have hmod : (q - t) % (36 - t) < 36 - t := Nat.mod_lt _ (by omega)
    have hnot : ¬ t + (q - t) % (36 - t) < t := by omega
    have hq : t + (q - t) % (36 - t) + (q - t) / (36 - t) * (36 - t) = q := by
      have hdiv := Nat.mod_add_div' (q - t) (36 - t)
      omega
    have hstep : decodeDelta bias k weight i (encodeDelta bias k q ++ rest) =
        decodeDelta bias (k + 36) (weight * (36 - t)) (i + (t + (q - t) % (36 - t)) * weight)
          (encodeDelta bias (k + 36) ((q - t) / (36 - t)) ++ rest) := by
      rw [encodeDelta, if_neg hge, List.cons_append, decodeDelta,
        digitValue?_digit (n := t + (q - t) % (36 - t)) (by omega)]
      exact if_neg hnot
    rw [hstep, ih, Nat.add_assoc, Nat.mul_comm weight, ← Nat.mul_assoc, ← Nat.add_mul, hq]

end Delta

/-- What the decoder has read so far: the characters, the number and the place of the last insertion. -/
structure Decoder where
  output : List Char
  point : Nat
  place : Nat
  bias : Nat

/-- The digits lead the decoder from one state to another, whatever follows them. -/
def Leads (ds : List Char) (d d' : Decoder) : Prop :=
  ∀ rest fuel, (ds ++ rest).length ≤ fuel → ∃ fuel', rest.length ≤ fuel' ∧
    decodeLoop fuel d.output (ds ++ rest) d.point d.place d.bias =
      decodeLoop fuel' d'.output rest d'.point d'.place d'.bias

theorem Leads.refl (d : Decoder) : Leads [] d d := fun _ fuel h => ⟨fuel, h, rfl⟩

theorem Leads.trans {ds ds' : List Char} {d d' d'' : Decoder} (h : Leads ds d d')
    (h' : Leads ds' d' d'') : Leads (ds ++ ds') d d'' := by
  intro rest fuel hfuel
  rw [List.append_assoc] at hfuel ⊢
  obtain ⟨fuel', hfuel', heq⟩ := h (ds' ++ rest) fuel hfuel
  obtain ⟨fuel'', hfuel'', heq'⟩ := h' rest fuel' hfuel'
  exact ⟨fuel'', hfuel'', heq.trans heq'⟩

theorem decodeLoop_cons (fuel : Nat) (output : List Char) (c : Char) (cs : List Char) (n i bias : Nat) :
    decodeLoop (fuel + 1) output (c :: cs) n i bias =
      (decodeDelta bias 36 1 i (c :: cs)).bind fun (j, rest) =>
        let count := output.length + 1
        if n + j / count ≤ 0x10FFFF ∧ ¬ (0xD800 ≤ n + j / count ∧ n + j / count < 0xE000) then
          decodeLoop fuel (output.take (j % count) ++ Char.ofNat (n + j / count) :: output.drop (j % count))
            rest (n + j / count) (j % count + 1) (adapt (j - i) count (i = 0))
        else none := rfl

theorem leads_insertion {d : Decoder} {delta : Nat} {c : Char} {front back : List Char}
    (hout : d.output = front ++ back) (hpoint : d.point ≤ c.toNat)
    (hdelta : delta + d.place + d.point * (d.output.length + 1) =
      c.toNat * (d.output.length + 1) + front.length) :
    Leads (encodeDelta d.bias 36 delta) d ⟨front ++ c :: back, c.toNat, front.length + 1,
      adapt delta (d.output.length + 1) (d.place = 0)⟩ := by
  intro rest fuel hfuel
  have hlen : front.length < d.output.length + 1 := by
    rw [hout, List.length_append]
    omega
  obtain ⟨x, xs, hdigits⟩ := List.exists_cons_of_ne_nil (encodeDelta_ne_nil d.bias 36 delta)
  have hread := decodeDelta_encodeDelta d.bias 36 delta 1 d.place rest
  rw [hdigits, List.cons_append, Nat.mul_one] at hread
  rw [hdigits, List.cons_append, List.length_cons, List.length_append] at hfuel
  obtain ⟨fuel, rfl⟩ := Nat.exists_eq_add_one.mpr (Nat.lt_of_lt_of_le (Nat.succ_pos _) hfuel)
  obtain ⟨steps, hsteps⟩ := Nat.exists_eq_add_of_le hpoint
  have hsum : d.place + delta = front.length + (d.output.length + 1) * steps := by
    rw [hsteps, Nat.add_mul] at hdelta
    rw [Nat.mul_comm (d.output.length + 1)]
    omega
  have hdiv : (d.place + delta) / (d.output.length + 1) = steps := by
    rw [hsum, Nat.add_mul_div_left _ _ (Nat.succ_pos _), Nat.div_eq_of_lt hlen, Nat.zero_add]
  have hmod : (d.place + delta) % (d.output.length + 1) = front.length := by
    rw [hsum, Nat.add_mul_mod_self_left, Nat.mod_eq_of_lt hlen]
  have hvalid : c.toNat ≤ 0x10FFFF ∧ ¬ (0xD800 ≤ c.toNat ∧ c.toNat < 0xE000) := by
    have hc : c.toNat < 0xD800 ∨ 0xDFFF < c.toNat ∧ c.toNat < 0x110000 := c.valid
    omega
  refine ⟨fuel, by omega, ?_⟩
  rw [hdigits, List.cons_append, decodeLoop_cons, hread, Option.bind_some]
  simp only [hdiv, hmod, ← hsteps, if_pos hvalid, Nat.add_sub_cancel_left, Char.ofNat_toNat]
  rw [hout, List.take_left, List.drop_left]

/-- The states of both while the encoder goes through a label for the number `m`, `front` behind it and
`back` before it: the decoder has the smaller characters, and of those with this number the ones that the
encoder has met. -/
structure Tracks (m basic : Nat) (front back : List Char) (e : Encoder) (d : Decoder) : Prop where
  output : d.output = front.filter (·.toNat ≤ m) ++ back.filter (·.toNat < m)
  handled : e.handled = d.output.length
  bias : e.bias = d.bias
  point : d.point ≤ m
  first : (d.place = 0) = (e.handled = basic)
  count : e.delta + d.place + d.point * (e.handled + 1) =
    m * (e.handled + 1) + (front.filter (·.toNat ≤ m)).length
  basic_le : basic ≤ e.handled

theorem Tracks.see {m basic : Nat} {front back : List Char} {c : Char} {e : Encoder} {d : Decoder}
    (h : Tracks m basic front (c :: back) e d) :
    ∃ ds d', (e.see basic m c).output = e.output ++ ds ∧ (∀ x ∈ ds, isDigit x = true) ∧ Leads ds d d' ∧
      Tracks m basic (front ++ [c]) back (e.see basic m c) d' := by
  obtain ⟨hout, hhandled, hbias, hpoint, hfirst, hcount, hbasic⟩ := h
  rw [List.filter_cons] at hout
  unfold Encoder.see
  rcases Nat.lt_trichotomy c.toNat m with hlt | heq | hgt
  · rw [if_pos hlt]
    rw [if_pos (decide_eq_true hlt)] at hout
    have hfront : (front ++ [c]).filter (·.toNat ≤ m) = front.filter (·.toNat ≤ m) ++ [c] := by
      simp [List.filter_append, Nat.le_of_lt hlt]
    refine ⟨[], d, (List.append_nil _).symm, by simp, .refl d, ?_, hhandled, hbias, hpoint, hfirst, ?_,
      hbasic⟩
    · rw [hfront, hout, List.append_assoc, List.singleton_append]
    · rw [hfront, List.length_append, List.length_singleton]
      dsimp only
      omega
  · rw [if_neg (by omega), if_pos heq]
    rw [if_neg (by simp [heq])] at hout
    have hfront : (front ++ [c]).filter (·.toNat ≤ m) = front.filter (·.toNat ≤ m) ++ [c] := by
      simp [List.filter_append, heq]
    have hleads := leads_insertion (c := c) hout (heq ▸ hpoint)
      (by rw [← hhandled, heq]; exact hcount)
    refine ⟨_, _, rfl, fun x => isDigit_of_mem_encodeDelta _ _ _, hbias ▸ hleads, ?_, ?_, ?_, ?_, ?_, ?_, ?_⟩
    · rw [hfront, List.append_assoc, List.singleton_append]
    · simp [hhandled, hout]
      omega
    · simp only [hhandled, hfirst]
    · exact Nat.le_of_eq heq
    · simp
      omega
    · rw [hfront]
      simp [heq]
      omega
    · exact Nat.le_succ_of_le hbasic
  · rw [if_neg (by omega), if_neg (by omega)]
    rw [if_neg (by simp; omega)] at hout
    have hfront : (front ++ [c]).filter (·.toNat ≤ m) = front.filter (·.toNat ≤ m) := by
      simp [List.filter_append, hgt]
    exact ⟨[], d, (List.append_nil _).symm, by simp, .refl d, hfront ▸ hout, hhandled, hbias, hpoint, hfirst,
      hfront ▸ hcount, hbasic⟩

theorem Tracks.through {m basic : Nat} {front back : List Char} {e : Encoder} {d : Decoder}
    (h : Tracks m basic front back e d) :
    ∃ ds d', (back.foldl (Encoder.see basic m) e).output = e.output ++ ds ∧
      (∀ x ∈ ds, isDigit x = true) ∧ Leads ds d d' ∧
      Tracks m basic (front ++ back) [] (back.foldl (Encoder.see basic m) e) d' := by
  induction back generalizing front e d with
  | nil => exact ⟨[], d, (List.append_nil _).symm, by simp, .refl d, by rwa [List.append_nil]⟩
  | cons c back ih =>
    obtain ⟨ds, d₁, hout, hdigits, hleads, hnext⟩ := h.see
    obtain ⟨ds', d₂, hout', hdigits', hleads', hend⟩ := ih hnext
    refine ⟨ds ++ ds', d₂, ?_, ?_, hleads.trans hleads', ?_⟩
    · rw [List.foldl_cons, hout', hout, List.append_assoc]
    · exact List.forall_mem_append.mpr ⟨hdigits, hdigits'⟩
    · rwa [List.append_assoc, List.singleton_append] at hend

/-- The states of both between two numbers: the decoder has the characters below `n`. -/
structure Rests (label : List Char) (basic n : Nat) (e : Encoder) (d : Decoder) : Prop where
  output : d.output = label.filter (·.toNat < n)
  handled : e.handled = d.output.length
  bias : e.bias = d.bias
  point : d.point ≤ n
  first : (d.place = 0) = (e.handled = basic)
  count : e.delta + d.place + d.point * (e.handled + 1) = n * (e.handled + 1)
  basic_le : basic ≤ e.handled

theorem Rests.tracks {label : List Char} {basic n m : Nat} {e : Encoder} {d : Decoder}
    (h : Rests label basic n e d) (hle : n ≤ m) (hnone : ∀ c ∈ label, n ≤ c.toNat → m ≤ c.toNat) :
    Tracks m basic [] label { e with delta := e.delta + (m - n) * (e.handled + 1) } d := by
  obtain ⟨hout, hhandled, hbias, hpoint, hfirst, hcount, hbasic⟩ := h
  refine ⟨?_, hhandled, hbias, Nat.le_trans hpoint hle, hfirst, ?_, hbasic⟩
  · rw [hout, List.filter_nil, List.nil_append]
    refine List.filter_congr fun c hc => decide_eq_decide.mpr ⟨fun hlt => by omega, fun hlt => ?_⟩
    by_contra hge
    exact absurd (hnone c hc (Nat.le_of_not_lt hge)) (Nat.not_le_of_lt hlt)
  · obtain ⟨k, rfl⟩ := Nat.exists_eq_add_of_le hle
    rw [Nat.add_sub_cancel_left, Nat.add_mul]
    simp only [List.filter_nil, List.length_nil]
    omega

theorem Tracks.rests {label : List Char} {basic m : Nat} {e : Encoder} {d : Decoder}
    (h : Tracks m basic label [] e d) : Rests label basic (m + 1) { e with delta := e.delta + 1 } d := by
  obtain ⟨hout, hhandled, hbias, hpoint, hfirst, hcount, hbasic⟩ := h
  rw [List.filter_nil, List.append_nil] at hout
  refine ⟨?_, hhandled, hbias, Nat.le_succ_of_le hpoint, hfirst, ?_, hbasic⟩
  · rw [hout]
    exact List.filter_congr fun c _ => decide_eq_decide.mpr Nat.lt_succ_iff.symm
  · rw [← hout, ← hhandled] at hcount
    rw [Nat.add_mul]
    dsimp only
    omega

theorem Rests.points {label : List Char} {basic n : Nat} {e : Encoder} {d : Decoder} {ms : List Nat}
    (h : Rests label basic n e d) (hsorted : ms.Pairwise (· < ·)) (hle : ∀ m ∈ ms, n ≤ m)
    (hall : ∀ c ∈ label, n ≤ c.toNat → c.toNat ∈ ms) :
    ∃ ds d', (ms.foldl (Encoder.point label basic) (e, n)).1.output = e.output ++ ds ∧
      (∀ x ∈ ds, isDigit x = true) ∧ Leads ds d d' ∧ d'.output = label := by
  induction ms generalizing n e d with
  | nil =>
    refine ⟨[], d, (List.append_nil _).symm, by simp, .refl d, ?_⟩
    rw [h.output, List.filter_eq_self]
    intro c hc
    by_contra hge
    cases hall c hc (by simpa using hge)
  | cons m ms ih =>
    obtain ⟨hfirst, hrest⟩ := List.pairwise_cons.mp hsorted
    have hnone : ∀ c ∈ label, n ≤ c.toNat → m ≤ c.toNat := by
      intro c hc hn
      rcases List.mem_cons.mp (hall c hc hn) with heq | hmem
      · exact Nat.le_of_eq heq.symm
      · exact Nat.le_of_lt (hfirst _ hmem)
    obtain ⟨ds, d₁, hout, hdigits, hleads, htracks⟩ :=
      (h.tracks (hle m List.mem_cons_self) hnone).through
    rw [List.nil_append] at htracks
    obtain ⟨ds', d₂, hout', hdigits', hleads', hend⟩ := ih htracks.rests hrest hfirst (by
      intro c hc hlt
      rcases List.mem_cons.mp (hall c hc (Nat.le_trans (hle m List.mem_cons_self)
        (Nat.le_of_lt hlt))) with heq | hmem
      · omega
      · exact hmem)
    refine ⟨ds ++ ds', d₂, ?_, List.forall_mem_append.mpr ⟨hdigits, hdigits'⟩, hleads.trans hleads', hend⟩
    rw [List.foldl_cons, Encoder.point, hout', hout, List.append_assoc]

theorem mem_insertPoint {n m : Nat} {ms : List Nat} : m ∈ insertPoint n ms ↔ m = n ∨ m ∈ ms := by
  induction ms with
  | nil => simp [insertPoint]
  | cons k ms ih =>
    unfold insertPoint
    split
    · rename_i heq
      simp [heq]
    · split
      · rw [List.mem_cons]
      · rw [List.mem_cons, ih, List.mem_cons, or_left_comm]

theorem pairwise_insertPoint {n : Nat} {ms : List Nat} (h : ms.Pairwise (· < ·)) :
    (insertPoint n ms).Pairwise (· < ·) := by
  induction ms with
  | nil => simp [insertPoint]
  | cons k ms ih =>
    obtain ⟨hfirst, hrest⟩ := List.pairwise_cons.mp h
    unfold insertPoint
    split
    · exact h
    · split
      · rename_i hlt
        refine List.pairwise_cons.mpr ⟨?_, h⟩
        intro m hm
        rcases List.mem_cons.mp hm with rfl | hm
        · exact hlt
        · exact Nat.lt_trans hlt (hfirst m hm)
      · refine List.pairwise_cons.mpr ⟨?_, ih hrest⟩
        intro m hm
        rcases mem_insertPoint.mp hm with rfl | hm
        · omega
        · exact hfirst m hm

theorem points_of_foldl (ns ps : List Nat) (h : ps.Pairwise (· < ·)) :
    (ns.foldl (fun ps n => if n < 128 then ps else insertPoint n ps) ps).Pairwise (· < ·) ∧
      ∀ m, m ∈ ns.foldl (fun ps n => if n < 128 then ps else insertPoint n ps) ps ↔
        m ∈ ps ∨ m ∈ ns ∧ 128 ≤ m := by
  induction ns generalizing ps with
  | nil => simpa using h
  | cons n ns ih =>
    rw [List.foldl_cons]
    split
    · rename_i hlt
      obtain ⟨hsorted, hmem⟩ := ih ps h
      refine ⟨hsorted, fun m => (hmem m).trans ?_⟩
      rw [List.mem_cons, or_and_right]
      refine or_congr_right ⟨.inr, fun hm => hm.resolve_left ?_⟩
      rintro ⟨rfl, hge⟩
      omega
    · rename_i hge
      obtain ⟨hsorted, hmem⟩ := ih _ (pairwise_insertPoint h)
      refine ⟨hsorted, fun m => (hmem m).trans ?_⟩
      rw [mem_insertPoint, List.mem_cons, or_and_right, or_assoc, or_left_comm]
      refine or_congr_right (or_congr_left ⟨?_, And.left⟩)
      rintro rfl
      exact ⟨rfl, Nat.le_of_not_lt hge⟩

/-- The plain characters of a label. -/
def plain (label : List Char) : List Char := label.filter (·.toNat < 128)

theorem encode_eq (label : List Char) : ∃ ds d, encode label =
      (if plain label = [] then [] else plain label ++ ['-']) ++ ds ∧ (∀ x ∈ ds, isDigit x = true) ∧
      Leads ds ⟨plain label, 128, 0, 72⟩ d ∧ d.output = label := by
  obtain ⟨hsorted, hmem⟩ := points_of_foldl (label.map Char.toNat) [] .nil
  have hstart : Rests label (plain label).length 128
      ⟨if plain label = [] then [] else plain label ++ ['-'], 0, 72, (plain label).length⟩
      ⟨plain label, 128, 0, 72⟩ := by
    refine ⟨rfl, rfl, rfl, Nat.le_refl _, ?_, ?_, Nat.le_refl _⟩
    · simp
    · simp
  obtain ⟨ds, d, hout, hdigits, hleads, hend⟩ := hstart.points hsorted (by simp [hmem]) (by
    intro c hc hge
    exact (hmem _).mpr (.inr ⟨List.mem_map_of_mem hc, hge⟩))
  exact ⟨ds, d, hout, hdigits, hleads, hend⟩

/-- Every character of an encoded label is a plain one of the label, a hyphen, or a digit. -/
theorem mem_encode {label : List Char} {c : Char} (h : c ∈ encode label) :
    (c ∈ label ∧ c.toNat < 128) ∨ c = '-' ∨ isDigit c = true := by
  obtain ⟨ds, d, heq, hdigits, -⟩ := encode_eq label
  rw [heq, List.mem_append] at h
  rcases h with h | h
  · split at h
    · cases h
    · rcases List.mem_append.mp h with h | h
      · exact .inl (by simpa [plain] using h)
      · exact .inr (.inl (List.mem_singleton.mp h))
  · exact .inr (.inr (hdigits c h))

theorem digits_behind {ds : List Char} (h : '-' ∉ ds) {front : List Char}
    (hfront : front = [] ∨ ∃ p, front = p ++ ['-']) :
    ((front ++ ds).reverse.takeWhile (· ≠ '-')).reverse = ds := by
  have hkept : ∀ x ∈ ds.reverse, decide (x ≠ '-') = true := by
    intro x hx
    exact decide_eq_true fun heq => h (heq ▸ List.mem_reverse.mp hx)
  rw [List.reverse_append, List.takeWhile_append_of_pos hkept]
  rcases hfront with rfl | ⟨p, rfl⟩ <;> simp

theorem decode?_encode (label : List Char) : decode? (encode label) = some label := by
  obtain ⟨ds, d, heq, hdigits, hleads, hend⟩ := encode_eq label
  have hhyphen : '-' ∉ ds := fun hmem => by cases hdigits _ hmem
  obtain ⟨fuel, -, hloop⟩ := hleads [] ds.length (by simp)
  rw [List.append_nil] at hloop
  dsimp only at hloop
  unfold decode?
  by_cases hplain : plain label = []
  · rw [if_pos hplain, List.nil_append] at heq
    have htail := digits_behind hhyphen (.inl rfl)
    rw [List.nil_append] at htail
    rw [hplain] at hloop
    simp only [heq, htail, if_neg hhyphen, hloop, hend, decodeLoop]
  · rw [if_neg hplain] at heq
    have htail := digits_behind hhyphen (.inr ⟨plain label, rfl⟩)
    have htake : (plain label ++ ['-'] ++ ds).take ((plain label ++ ['-'] ++ ds).length - ds.length - 1) =
        plain label := by
      have hlen : (plain label ++ ['-'] ++ ds).length - ds.length - 1 = (plain label).length := by
        simp only [List.length_append, List.length_singleton]
        omega
      rw [hlen, List.append_assoc, List.take_left]
    have hmem : '-' ∈ plain label ++ ['-'] ++ ds := by simp
    simp only [heq, htail, if_pos hmem, htake, hloop, hend, decodeLoop]

end CatalogClient.Url.Punycode
