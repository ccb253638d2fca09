import CatalogClient.Proofs.Text.Split
import CatalogClient.Proofs.Text.Utf8
import CatalogClient.Url.Basic
/-!
Form encoding: pairs that are encoded are read back, also from the end of a query that holds others.
-/

namespace CatalogClient

namespace Url

theorem hexValue?_hexDigit {n : Nat} (h : n < 16) : hexValue? (hexDigit n) = some n := by
  have hall : ∀ n : Fin 16, hexValue? (hexDigit n.val) = some n.val := by decide
  exact hall ⟨n, h⟩

theorem unescape_escapeByte (b : UInt8) (cs : List Char) :
    unescape (escapeByte b ++ cs) = b :: unescape cs := by
  have hb : b.toNat < 256 := b.toNat_lt
  have hvalue : b.toNat / 16 * 16 + b.toNat % 16 = b.toNat := by omega
  simp only [escapeByte, List.cons_append, List.nil_append, unescape,
    hexValue?_hexDigit (n := b.toNat / 16) (by omega), hexValue?_hexDigit (n := b.toNat % 16) (by omega),
    hvalue, UInt8.ofNat_toNat]

theorem unescape_escapeBytes (bs : List UInt8) (cs : List Char) :
    unescape (bs.flatMap escapeByte ++ cs) = bs ++ unescape cs := by
  induction bs with
  | nil => rfl
  | cons b bs ih => rw [List.flatMap_cons, List.append_assoc, unescape_escapeByte, ih, List.cons_append]

theorem unescape_cons {c : Char} (h : c ≠ '%') (cs : List Char) :
    unescape (c :: cs) = String.utf8EncodeChar c ++ unescape cs := by
  rw [unescape]
  intro a b rest heq
  exact absurd heq h

namespace Form

theorem ne_of_kept {c d : Char} (h : kept c = true) (hd : kept d = false) : c ≠ d := by
  rintro rfl
  rw [h] at hd
  cases hd

theorem hexDigit_kept {n : Nat} (h : n < 16) : kept (hexDigit n) = true := by
  have hall : ∀ n : Fin 16, kept (hexDigit n.val) = true := by decide
  exact hall ⟨n, h⟩

/-- What an encoded text is made of. -/
def Safe (c : Char) : Prop := kept c = true ∨ c = '+' ∨ c = '%'

theorem safe_escapeByte (b : UInt8) {c : Char} (h : c ∈ escapeByte b) : kept c = true ∨ c = '%' := by
  have hb : b.toNat < 256 := b.toNat_lt
  simp only [escapeByte, List.mem_cons, List.not_mem_nil, or_false] at h
  rcases h with rfl | rfl | rfl
  · exact .inr rfl
  · exact .inl (hexDigit_kept (by omega))
  · exact .inl (hexDigit_kept (by omega))

theorem safe_encodeChar {c d : Char} (h : d ∈ encodeChar c) : Safe d := by
  unfold encodeChar at h
  split at h
  · exact .inr (.inl (List.mem_singleton.mp h))
  · unfold escapeChar at h
    split at h
    · rename_i hkept
      exact .inl (List.mem_singleton.mp h ▸ hkept)
    · obtain ⟨b, -, hmem⟩ := List.mem_flatMap.mp h
      exact (safe_escapeByte b hmem).imp_right .inr

theorem safe_encode {s : String} {c : Char} (h : c ∈ encode s) : Safe c := by
  obtain ⟨d, -, hmem⟩ := List.mem_flatMap.mp h
  exact safe_encodeChar hmem

theorem Safe.ne {c d : Char} (h : Safe c) (hd : kept d = false) (hplus : d ≠ '+') (hpercent : d ≠ '%') :
    c ≠ d := by
  rcases h with h | rfl | rfl
  · exact ne_of_kept h hd
  · exact hplus.symm
  · exact hpercent.symm

theorem not_mem_encode (s : String) {c : Char} (hc : kept c = false) (hplus : c ≠ '+')
    (hpercent : c ≠ '%') : c ∉ encode s :=
  fun h => (safe_encode h).ne hc hplus hpercent rfl

theorem map_id_of_no_plus {cs : List Char} (h : ∀ c ∈ cs, c ≠ '+') :
    (cs.map fun c => if c = '+' then ' ' else c) = cs := by
  conv => rhs; rw [← List.map_id cs]
  exact List.map_congr_left fun c hc => if_neg (h c hc)

theorem unescape_encodeChar (c : Char) (cs : List Char) :
    unescape ((encodeChar c).map (fun c => if c = '+' then ' ' else c) ++ cs) =
      String.utf8EncodeChar c ++ unescape cs := by
  unfold encodeChar
  split
  · rename_i hspace
    rw [hspace]
    exact unescape_cons (by decide) cs
  · unfold escapeChar
    split
    · rename_i hkept
      rw [map_id_of_no_plus (by simpa using ne_of_kept hkept rfl)]
      exact unescape_cons (ne_of_kept hkept rfl) cs
    · rw [map_id_of_no_plus]
      · exact unescape_escapeBytes _ cs
      · intro d hd
        obtain ⟨b, -, hmem⟩ := List.mem_flatMap.mp hd
        rcases safe_escapeByte b hmem with hkept | rfl
        · exact ne_of_kept hkept rfl
        · decide

theorem decode_encode (s : String) : decode (encode s) = s := by
  have hbytes : ∀ cs : List Char,
      unescape ((cs.flatMap encodeChar).map fun c => if c = '+' then ' ' else c) =
        cs.flatMap String.utf8EncodeChar := by
    intro cs
    induction cs with
    | nil => rfl
    | cons c cs ih =>
      rw [List.flatMap_cons, List.map_append, unescape_encodeChar, ih, List.flatMap_cons]
  rw [decode, encode, hbytes]
  exact Text.Utf8.decodeLossy_encode s

theorem decodePair_encodePair (pair : String × String) : decodePair (encodePair pair) = pair := by
  obtain ⟨k, v⟩ := pair
  have hcut := Text.cut?_append (not_mem_encode k (c := '=') rfl (by decide) (by decide)) (encode v)
  simp only [encodePair, decodePair, hcut, decode_encode]

theorem not_mem_encodePair (pair : String × String) : '&' ∉ encodePair pair := by
  obtain ⟨k, v⟩ := pair
  simp only [encodePair, List.mem_append, List.mem_cons, not_or]
  exact ⟨not_mem_encode k rfl (by decide) (by decide), by decide,
    not_mem_encode v rfl (by decide) (by decide)⟩

theorem encodePair_ne_nil (pair : String × String) : encodePair pair ≠ [] := by
  obtain ⟨k, v⟩ := pair
  simp [encodePair]

theorem decodePairs_encodePairs (ps : List (String × String)) : decodePairs (encodePairs ps) = ps := by
  cases ps with
  | nil => rfl
  | cons pair ps =>
    have hsplit : Text.splitList '&' (encodePairs (pair :: ps)) = (pair :: ps).map encodePair := by
      refine Text.splitList_intercalate (by simp) ?_
      simp only [List.forall_mem_map]
      exact fun pair _ => not_mem_encodePair pair
    have hfilter : ((pair :: ps).map encodePair).filter (· ≠ []) = (pair :: ps).map encodePair := by
      rw [List.filter_eq_self]
      simp only [List.forall_mem_map]
      exact fun pair _ => by simpa using encodePair_ne_nil pair
    rw [decodePairs, hsplit, hfilter, List.map_map]
    conv => rhs; rw [← List.map_id (pair :: ps)]
    exact List.map_congr_left fun pair _ => decodePair_encodePair pair

theorem decodePairs_append (front back : List Char) :
    decodePairs (front ++ '&' :: back) = decodePairs front ++ decodePairs back := by
  simp only [decodePairs, Text.splitList_append, List.filter_append, List.map_append]

end Form

theorem pairs_withPairs (u : Url) (ps : List (String × String)) :
    (u.withPairs ps).pairs = u.pairs ++ ps := by
  simp only [pairs, withPairs, Option.getD_some, String.toList_ofList]
  split
  · rename_i hnone
    rcases hnone with hold | hencoded
    · rw [hold, List.nil_append, Form.decodePairs_encodePairs]
      rfl
    · have hps := Form.decodePairs_encodePairs ps
      rw [hencoded] at hps ⊢
      rw [List.append_nil, ← hps]
      exact (List.append_nil _).symm
  · rw [Form.decodePairs_append, Form.decodePairs_encodePairs]

end Url

end CatalogClient
