import CatalogClient.Text.Utf8
/-!
Texts in UTF-8 are read back, whatever follows them.
-/

namespace CatalogClient.Text.Utf8

theorem lead_ofNat {k : Nat} (h : k < 256) : lead (UInt8.ofNat k) =
    if k < 0x80 then .whole (Char.ofNat k)
    else if k < 0xC2 then .fault
    else if k < 0xE0 then .unfinished ⟨k % 32, 1, 0x80, 0xBF⟩
    else if k = 0xE0 then .unfinished ⟨0, 2, 0xA0, 0xBF⟩
    else if k = 0xED then .unfinished ⟨13, 2, 0x80, 0x9F⟩
    else if k < 0xF0 then .unfinished ⟨k % 16, 2, 0x80, 0xBF⟩
    else if k = 0xF0 then .unfinished ⟨0, 3, 0x90, 0xBF⟩
    else if k < 0xF4 then .unfinished ⟨k % 8, 3, 0x80, 0xBF⟩
    else if k = 0xF4 then .unfinished ⟨4, 3, 0x80, 0x8F⟩
    else .fault := by
  have hk : (UInt8.ofNat k).toNat = k := UInt8.toNat_ofNat_of_lt' h
  simp only [lead, UInt8.lt_iff_toNat_lt, ← UInt8.toNat_inj, hk]
  rfl

theorem scan_unfinished {k : Nat} {p : Pending} {bs : List UInt8}
    (h : lead (UInt8.ofNat k) = .unfinished p) :
    scan none (UInt8.ofNat k :: bs) = scan (some p) bs := by
  simp only [scan, h]

theorem continuation_within {least greatest : UInt8} {m : Nat} (hleast : least.toNat ≤ m % 64 + 128)
    (hgreatest : m % 64 + 128 ≤ greatest.toNat) :
    least ≤ UInt8.ofNat (m % 64 + 128) ∧ UInt8.ofNat (m % 64 + 128) ≤ greatest := by
  have hk : (UInt8.ofNat (m % 64 + 128)).toNat = m % 64 + 128 :=
    UInt8.toNat_ofNat_of_lt' (by simp [UInt8.size]; omega)
  simpa only [UInt8.le_iff_toNat_le, hk] using And.intro hleast hgreatest

theorem scan_last {value m : Nat} {least greatest : UInt8} {bs : List UInt8}
    (hleast : least.toNat ≤ m % 64 + 128) (hgreatest : m % 64 + 128 ≤ greatest.toNat) :
    scan (some ⟨value, 1, least, greatest⟩) (UInt8.ofNat (m % 64 + 128) :: bs) =
      some (Char.ofNat (value * 64 + m % 64)) :: scan none bs := by
  have hk : (UInt8.ofNat (m % 64 + 128)).toNat = m % 64 + 128 :=
    UInt8.toNat_ofNat_of_lt' (by simp [UInt8.size]; omega)
  have hlow : (m % 64 + 128) % 64 = m % 64 := by omega
  simp only [scan, if_pos (continuation_within hleast hgreatest), hk, hlow]
  simp

theorem scan_further {value missing m : Nat} {least greatest : UInt8} {bs : List UInt8}
    (hleast : least.toNat ≤ m % 64 + 128) (hgreatest : m % 64 + 128 ≤ greatest.toNat) :
    scan (some ⟨value, missing + 2, least, greatest⟩) (UInt8.ofNat (m % 64 + 128) :: bs) =
      scan (some ⟨value * 64 + m % 64, missing + 1, 0x80, 0xBF⟩) bs := by
  have hk : (UInt8.ofNat (m % 64 + 128)).toNat = m % 64 + 128 :=
    UInt8.toNat_ofNat_of_lt' (by simp [UInt8.size]; omega)
  have hlow : (m % 64 + 128) % 64 = m % 64 := by omega
  simp only [scan, if_pos (continuation_within hleast hgreatest), hk, hlow]
  simp

/-- The second byte decides whether a sequence of three bytes is too long for its scalar, or a surrogate. -/
theorem lead_three {v : Nat} (hlow : 2048 ≤ v) (hhigh : v < 65536) (hvalid : v < 55296 ∨ 57343 < v) :
    ∃ least greatest, lead (UInt8.ofNat (v / 4096 % 16 + 224)) =
        .unfinished ⟨v / 4096, 2, least, greatest⟩ ∧
      least.toNat ≤ v / 64 % 64 + 128 ∧ v / 64 % 64 + 128 ≤ greatest.toNat := by
  rw [lead_ofNat (by omega), if_neg (by omega), if_neg (by omega), if_neg (by omega)]
  by_cases h0 : v / 4096 = 0
  · rw [if_pos (by omega), h0]
    exact ⟨0xA0, 0xBF, rfl, by simp; omega, by simp; omega⟩
  · rw [if_neg (by omega)]
    by_cases h13 : v / 4096 = 13
    · rw [if_pos (by omega), h13]
      exact ⟨0x80, 0x9F, rfl, by simp, by simp; omega⟩
    · rw [if_neg (by omega), if_pos (by omega)]
      refine ⟨0x80, 0xBF, ?_, by simp, by simp; omega⟩
      congr
      omega

theorem lead_four {v : Nat} (hlow : 65536 ≤ v) (hvalid : v < 1114112) :
    ∃ least greatest, lead (UInt8.ofNat (v / 262144 % 8 + 240)) =
        .unfinished ⟨v / 262144, 3, least, greatest⟩ ∧
      least.toNat ≤ v / 4096 % 64 + 128 ∧ v / 4096 % 64 + 128 ≤ greatest.toNat := by
  rw [lead_ofNat (by omega), if_neg (by omega), if_neg (by omega), if_neg (by omega),
    if_neg (by omega), if_neg (by omega), if_neg (by omega)]
  by_cases h0 : v / 262144 = 0
  · rw [if_pos (by omega), h0]
    exact ⟨0x90, 0xBF, rfl, by simp; omega, by simp; omega⟩
  · rw [if_neg (by omega)]
    by_cases h4 : v / 262144 = 4
    · rw [if_neg (by omega), if_pos (by omega), h4]
      exact ⟨0x80, 0x8F, rfl, by simp, by simp; omega⟩
    · rw [if_pos (by omega)]
      refine ⟨0x80, 0xBF, ?_, by simp, by simp; omega⟩
      congr
      omega

theorem scan_char (c : Char) (bs : List UInt8) :
    scan none (String.utf8EncodeChar c ++ bs) = some c :: scan none bs := by
  have hvalid : c.val.toNat < 55296 ∨ 57343 < c.val.toNat ∧ c.val.toNat < 1114112 := c.valid
  have hchar : ∀ v, v = c.val.toNat → Char.ofNat v = c := by
    rintro v rfl
    exact Char.ofNat_toNat c
  unfold String.utf8EncodeChar
  generalize c.val.toNat = v at hvalid hchar
  dsimp only
  split
  · have hlead : lead (UInt8.ofNat v) = .whole (Char.ofNat v) := by
      rw [lead_ofNat (by omega), if_pos (by omega)]
    rw [List.singleton_append, scan, hlead, hchar v rfl]
  · split
    · have hlead : lead (UInt8.ofNat (v / 64 % 32 + 192)) = .unfinished ⟨v / 64, 1, 0x80, 0xBF⟩ := by
        rw [lead_ofNat (by omega), if_neg (by omega), if_neg (by omega), if_pos (by omega)]
        congr
        omega
      rw [List.cons_append, scan_unfinished hlead, List.singleton_append,
        scan_last (by simp) (by simp; omega), hchar _ (by omega)]
    · split
      · obtain ⟨least, greatest, hlead, hleast, hgreatest⟩ :=
          lead_three (v := v) (by omega) (by omega) (by omega)
        rw [List.cons_append, scan_unfinished hlead, List.cons_append,
          scan_further hleast hgreatest, List.singleton_append, scan_last (by simp) (by simp; omega),
          hchar _ (by omega)]
      · obtain ⟨least, greatest, hlead, hleast, hgreatest⟩ :=
          lead_four (v := v) (by omega) (by omega)
        rw [List.cons_append, scan_unfinished hlead, List.cons_append,
          scan_further hleast hgreatest, List.cons_append, scan_further (by simp) (by simp; omega),
          List.singleton_append, scan_last (by simp) (by simp; omega), hchar _ (by omega)]

theorem scan_encode (cs : List Char) :
    scan none (cs.flatMap String.utf8EncodeChar) = cs.map some := by
  induction cs with
  | nil => rfl
  | cons c cs ih => rw [List.flatMap_cons, scan_char, ih, List.map_cons]

theorem decodeWith_encode (standIn : Char) (s : String) : decodeWith standIn (encode s) = s := by
  rw [decodeWith, encode, scan_encode, List.map_map]
  simp [Function.comp_def]

theorem decodeLossy_encode (s : String) : decodeLossy (encode s) = s := decodeWith_encode _ s

theorem decode?_encode (s : String) : decode? (encode s) = some s := by
  have hall : ∀ cs : List Char, (cs.map some).mapM id = some cs := by
    intro cs
    induction cs with
    | nil => rfl
    | cons c cs ih => simp [ih]
  rw [decode?, encode, scan_encode, hall]
  simp

end CatalogClient.Text.Utf8
