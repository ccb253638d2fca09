import CatalogClient.Url.Reader
import CatalogClient.Proofs.Bind
import CatalogClient.Proofs.Decimal.Digits
import CatalogClient.Proofs.Url.Name
import Mathlib.Algebra.Group.Nat.Defs
/-!
Hosts are read back: the text of a host that was read for a special scheme gives that host again, in
whatever authority it stands.
-/

namespace CatalogClient.Host

variable {cs : List Char} {pieces : List Nat} {h : Host}

theorem cutHost_of_notMem {rest : List Char} (hcolon : ':' ∉ cs) (hopen : '[' ∉ cs) (hclose : ']' ∉ cs)
    (hrest : rest = [] ∨ rest.head? = some ':') : Url.cutHost false (cs ++ rest) = (cs, rest) := by
  induction cs with
  | nil =>
    rcases hrest with rfl | hrest
    · rfl
    · cases rest with
      | nil => cases hrest
      | cons c rest =>
        cases hrest
        rfl
  | cons c cs ih =>
    simp only [List.mem_cons, not_or] at hcolon hopen hclose
    rw [List.cons_append, Url.cutHost, if_neg fun hc => hcolon.1 hc.1.symm, if_neg (Ne.symm hopen.1),
      if_neg (Ne.symm hclose.1), ih hcolon.2 hopen.2 hclose.2]

theorem cutHost_bracketed {rest : List Char} (hclose : ']' ∉ cs) :
    Url.cutHost true (cs ++ ']' :: rest) =
      (cs ++ ']' :: (Url.cutHost false rest).1, (Url.cutHost false rest).2) := by
  induction cs with
  | nil => rfl
  | cons c cs ih =>
    simp only [List.mem_cons, not_or] at hclose
    have hstays : (if c = '[' then true else if c = ']' then false else true) = true := by
      rw [if_neg (Ne.symm hclose.1), ite_self]
    rw [List.cons_append, Url.cutHost, if_neg (by simp), hstays, ih hclose.2]
    rfl

/-- The characters that end a host, or that no reader of URLs counts. -/
def endsHost (c : Char) : Bool := Url.isEdge c || c ∈ ['/', '\\', '?', '#', '@']

/-- What it takes to find a host again by its text, behind whatever stands before it. -/
structure Canonical (h : Host) : Prop where
  reads : readSpecial h.write = .ok h
  cut : ∀ rest, rest = [] ∨ rest.head? = some ':' → Url.cutHost false (h.write ++ rest) = (h.write, rest)
  stays : ∀ c ∈ h.write, endsHost c = false
  ne_nil : h.write ≠ []

theorem canonical_name (hwrite : PlainName h.write) (hne : h.write ≠ [])
    (hreads : readSpecial h.write = .ok h) : h.Canonical where
  reads := hreads
  cut _ hrest := cutHost_of_notMem (hwrite.notMem (by decide)) (hwrite.notMem (by decide))
    (hwrite.notMem (by decide)) hrest
  stays c hc := by
    have hfit := hwrite c hc
    refine Url.forall_ascii (q := fun c => isForbidden c = false → endsHost c = false) ?_ hfit.2 hfit.1.2
    decide
  ne_nil := hne

/-! ## Addresses of four bytes -/

theorem readIpv4_ok (hread : readIpv4 cs = .ok h) : ∃ a, h = .ipv4 a ∧ a < 4294967296 := by
  unfold readIpv4 at hread
  dsimp only at hread
  split at hread
  · cases hread
  · rename_i ns _
    split at hread
    · cases hread
    · rename_i hbounds
      cases hread
      refine ⟨_, rfl, ?_⟩
      simp only [not_or, Nat.not_lt, Nat.not_le, List.any_eq_true, not_exists, not_and,
        decide_eq_true_eq] at hbounds
      obtain ⟨hlength, hleading, hlast⟩ := hbounds
      match ns, hlength, hleading, hlast with
      | [], _, _, hlast => exact hlast
      | [a], _, _, hlast => simpa using hlast
      | [a, b], _, hleading, hlast =>
        have := hleading a (by simp)
        simp [Nat.shiftLeft_eq] at hlast ⊢
        omega
      | [a, b, c], _, hleading, hlast =>
        have := hleading a (by simp)
        have := hleading b (by simp)
        simp [Nat.shiftLeft_eq] at hlast ⊢
        omega
      | [a, b, c, d], _, hleading, hlast =>
        have := hleading a (by simp)
        have := hleading b (by simp)
        have := hleading c (by simp)
        simp [Nat.shiftLeft_eq] at hlast ⊢
        omega

theorem addressPart?_write {n : Nat} (hn : n < 256) : addressPart? (Decimal.write n) = some n := by
  have hall : ∀ n : Fin 256, addressPart? (Decimal.write n.val) = some n.val := by decide +kernel
  exact hall ⟨n, hn⟩

theorem plain_write (n : Nat) : Plain (Decimal.write n) := by
  intro c hc
  refine fit_of_isDigit ?_
  have hdigit := Decimal.isDigit_of_mem_write hc
  rw [Url.Punycode.isDigit, Bool.or_eq_true]
  exact .inr hdigit

theorem asciiLabel?_write (n : Nat) : asciiLabel? (Decimal.write n) = some (Decimal.write n) := by
  unfold asciiLabel?
  split
  · rename_i heq
    have hdigit := Decimal.isDigit_of_mem_write (heq ▸ List.mem_cons_self : 'x' ∈ Decimal.write n)
    cases hdigit
  · refine if_pos (List.all_eq_true.mpr fun c hc => decide_eq_true ?_)
    exact (plain_write n c hc).2.2

/-- The text of an address, as a name, and its parts. -/
theorem parts_of_bytes {ns : List Nat} (hne : ns ≠ []) :
    PlainName (['.'].intercalate (ns.map Decimal.write)) ∧
      asciiName? (['.'].intercalate (ns.map Decimal.write)) = some (['.'].intercalate (ns.map Decimal.write)) ∧
      dropFinalEmpty (Text.splitList '.' (['.'].intercalate (ns.map Decimal.write))) =
        ns.map Decimal.write := by
  have hstay : (ns.map Decimal.write).mapM asciiLabel? = some (ns.map Decimal.write) :=
    mapM_map_some fun n _ => asciiLabel?_write n
  have hplain : ∀ label ∈ ns.map Decimal.write, Plain label := by
    intro label hlabel
    obtain ⟨n, -, rfl⟩ := List.mem_map.mp hlabel
    exact plain_write n
  have hparts : ns.map Decimal.write ≠ [] := by simpa using hne
  obtain ⟨hname, hascii⟩ := asciiName?_labels hparts hplain hstay
  refine ⟨hname, hascii, ?_⟩
  rw [Text.splitList_intercalate hparts fun l hl hdot => (hplain l hl _ hdot).2.1 rfl, dropFinalEmpty, if_neg]
  intro hlast
  obtain ⟨n, -, hn⟩ := List.mem_map.mp (List.mem_of_getLast? hlast)
  exact Decimal.write_ne_nil n hn

theorem endsInNumber_bytes {ns : List Nat} (hne : ns ≠ []) :
    endsInNumber (['.'].intercalate (ns.map Decimal.write)) = true := by
  rw [endsInNumber, (parts_of_bytes hne).2.2, List.getLast?_map, List.getLast?_eq_some_getLast hne,
    Option.map_some]
  split
  · rename_i heq
    cases heq
  · rename_i heq
    exact absurd (Option.some.inj heq) (Decimal.write_ne_nil _)
  · rename_i heq
    cases Option.some.inj heq
    rw [List.all_eq_true.mpr fun c hc => Decimal.isDigit_of_mem_write hc, Bool.true_or]

theorem canonical_ipv4 {a : Nat} (ha : a < 4294967296) : (Host.ipv4 a).Canonical := by
  let bytes := [a / 16777216, a / 65536 % 256, a / 256 % 256, a % 256]
  have hwrite : (Host.ipv4 a).write = ['.'].intercalate (bytes.map Decimal.write) := rfl
  have hbytes : ∀ n ∈ bytes, n < 256 := by
    simp only [bytes, List.forall_mem_cons]
    exact ⟨by omega, by omega, by omega, by omega, fun _ h => absurd h List.not_mem_nil⟩
  have hsome : bytes ≠ [] := List.cons_ne_nil _ _
  obtain ⟨hname, hascii, hparts⟩ := parts_of_bytes hsome
  rw [← hwrite] at hname hascii hparts
  have hne : (Host.ipv4 a).write ≠ [] := by
    intro hnil
    rw [hnil] at hparts
    cases hparts
  have hread : readIpv4 (Host.ipv4 a).write = .ok (.ipv4 a) := by
    rw [readIpv4, hparts, mapM_map_some (f := Decimal.write) (k := id)
      fun n hn => addressPart?_write (hbytes n hn), List.map_id]
    have hbounds : ¬ (4 < bytes.length ∨ (bytes.dropLast.any (255 < ·)) = true ∨
        1 <<< (8 * (4 - bytes.dropLast.length)) ≤ bytes.getLast?.getD 0) := by
      simp [bytes]
      omega
    dsimp only
    rw [if_neg hbounds]
    simp only [bytes, List.dropLast, List.getLast?_cons_cons, List.getLast?_singleton, Option.getD_some,
      List.zipIdx_cons, List.zipIdx_nil, List.foldl_cons, List.foldl_nil, Nat.shiftLeft_eq]
    congr 2
    omega
  refine canonical_name hname hne ?_
  rw [readSpecial_name hne hname hascii, hwrite, if_pos (endsInNumber_bytes (by simp [bytes])), ← hwrite, hread]

/-! ## Addresses of eight pieces -/

theorem hexValue?_digitChar {d : Nat} (hd : d < 16) : Url.hexValue? (Nat.digitChar d) = some d := by
  have hall : ∀ d : Fin 16, Url.hexValue? (Nat.digitChar d.val) = some d.val := by decide
  exact hall ⟨d, hd⟩

theorem hexValue?_lt {c : Char} {d : Nat} (hc : Url.hexValue? c = some d) : d < 16 := by
  have hnat : ∀ a b : Char, a ≤ b → a.toNat ≤ b.toNat := fun _ _ => UInt32.le_iff_toNat_le.mp
  have h9 : '9'.toNat = 57 := rfl
  have hf : 'f'.toNat = 102 := rfl
  have hF : 'F'.toNat = 70 := rfl
  unfold Url.hexValue? at hc
  split at hc
  · rename_i hrange
    have := hnat _ _ hrange.2
    cases hc
    omega
  split at hc
  · rename_i hrange
    have := hnat _ _ hrange.2
    cases hc
    omega
  split at hc
  · rename_i hrange
    have := hnat _ _ hrange.2
    cases hc
    omega
  · cases hc

theorem mem_toDigits {n : Nat} {c : Char} (hc : c ∈ Nat.toDigits 16 n) : ∃ d < 16, c = Nat.digitChar d := by
  induction n using Nat.strongRecOn with
  | ind n ih =>
    by_cases hn : n < 16
    · rw [Nat.toDigits_of_lt_base hn] at hc
      exact ⟨n, hn, List.mem_singleton.mp hc⟩
    · rw [Nat.toDigits_of_base_le (by decide) (by omega), List.mem_append] at hc
      rcases hc with hc | hc
      · exact ih (n / 16) (by omega) hc
      · exact ⟨n % 16, Nat.mod_lt _ (by decide), List.mem_singleton.mp hc⟩

theorem notMem_toDigits {n : Nat} {c : Char} (hc : ∀ d : Fin 16, Nat.digitChar d.val ≠ c) :
    c ∉ Nat.toDigits 16 n := by
  intro hmem
  obtain ⟨d, hd, rfl⟩ := mem_toDigits hmem
  exact hc ⟨d, hd⟩ rfl

theorem foldlM_toDigits (n : Nat) :
    (Nat.toDigits 16 n).foldlM (fun n c => do return n * 16 + (← Url.hexValue? c)) 0 = some n := by
  induction n using Nat.strongRecOn with
  | ind n ih =>
    by_cases hn : n < 16
    · rw [Nat.toDigits_of_lt_base hn, List.foldlM_cons, hexValue?_digitChar hn]
      simp
    · rw [Nat.toDigits_of_base_le (by decide) (by omega), List.foldlM_append, ih (n / 16) (by omega)]
      simp only [Option.bind_eq_bind, Option.bind_some, List.foldlM_cons,
        hexValue?_digitChar (Nat.mod_lt n (by decide)), List.foldlM_nil]
      exact congrArg some (by omega)

theorem hexPiece?_toDigits {n : Nat} (hn : n < 65536) : hexPiece? (Nat.toDigits 16 n) = some n := by
  have hlength : (Nat.toDigits 16 n).length ≤ 4 :=
    (Nat.length_toDigits_le_iff (by decide) (by decide)).mpr hn
  rw [hexPiece?, if_neg, foldlM_toDigits]
  rw [not_or]
  exact ⟨Nat.toDigits_ne_nil, by omega⟩

theorem foldlM_hex_lt {a n : Nat}
    (hfold : cs.foldlM (fun n c => do return n * 16 + (← Url.hexValue? c)) a = some n) :
    n < (a + 1) * 16 ^ cs.length := by
  induction cs generalizing a with
  | nil =>
    cases hfold
    simp
  | cons c cs ih =>
    rw [List.foldlM_cons] at hfold
    obtain ⟨b, hb, hfold⟩ := Option.bind_eq_some_iff.mp hfold
    obtain ⟨d, hd, hb⟩ := Option.bind_eq_some_iff.mp hb
    cases hb
    have hlt := hexValue?_lt hd
    calc n < (a * 16 + d + 1) * 16 ^ cs.length := ih hfold
      _ ≤ ((a + 1) * 16) * 16 ^ cs.length := Nat.mul_le_mul_right _ (by omega)
      _ = (a + 1) * 16 ^ (cs.length + 1) := by rw [Nat.mul_assoc, Nat.pow_succ, Nat.mul_comm 16]

theorem hexPiece?_lt {n : Nat} (hpiece : hexPiece? cs = some n) : n < 65536 := by
  unfold hexPiece? at hpiece
  split at hpiece
  · cases hpiece
  · rename_i hshape
    rw [not_or] at hshape
    calc n < (0 + 1) * 16 ^ cs.length := foldlM_hex_lt hpiece
      _ = 16 ^ cs.length := by rw [Nat.zero_add, Nat.one_mul]
      _ ≤ 16 ^ 4 := Nat.pow_le_pow_right (by decide) (by omega)

theorem byte?_lt {n : Nat} (hbyte : byte? cs = some n) : n < 256 := by
  unfold byte? at hbyte
  split at hbyte
  · cases hbyte
  · dsimp only at hbyte
    split at hbyte
    · cases hbyte
      assumption
    · cases hbyte

theorem ipv6Pieces?_lt {gs : List (List Char)} (hgs : ipv6Pieces? gs = some pieces) :
    ∀ n ∈ pieces, n < 65536 := by
  induction gs using ipv6Pieces?.induct generalizing pieces with
  | case1 =>
    cases hgs
    exact fun n hn => absurd hn List.not_mem_nil
  | case2 g hdot =>
    rw [ipv6Pieces?, if_pos hdot] at hgs
    obtain ⟨bytes, hbytes, hgs⟩ := Option.bind_eq_some_iff.mp hgs
    have hlt := forall_of_mapM (fun _ _ => byte?_lt) hbytes
    split at hgs
    · cases hgs
      simp only [List.forall_mem_cons] at hlt ⊢
      exact ⟨by omega, by omega, fun n hn => absurd hn List.not_mem_nil⟩
    · cases hgs
  | case3 g hdot =>
    rw [ipv6Pieces?, if_neg hdot] at hgs
    obtain ⟨m, hm, hgs⟩ := Option.bind_eq_some_iff.mp hgs
    cases hgs
    simpa using hexPiece?_lt hm
  | case4 g gs hne ih =>
    rw [ipv6Pieces?.eq_3 _ _ hne] at hgs
    obtain ⟨m, hm, hgs⟩ := Option.bind_eq_some_iff.mp hgs
    obtain ⟨ms, hms, hgs⟩ := Option.bind_eq_some_iff.mp hgs
    cases hgs
    exact List.forall_mem_cons.mpr ⟨hexPiece?_lt hm, ih hms⟩

/-- The pieces of an address. -/
def Whole (pieces : List Nat) : Prop := pieces.length = 8 ∧ ∀ n ∈ pieces, n < 65536

theorem readIpv6_ok (hread : readIpv6 cs = .ok h) : ∃ pieces, h = .ipv6 pieces ∧ Whole pieces := by
  unfold readIpv6 at hread
  dsimp only at hread
  split at hread
  · rename_i pieces hpieces
    cases hread
    refine ⟨pieces, rfl, ?_⟩
    split at hpieces
    · obtain ⟨ns, hns, hpieces⟩ := Option.bind_eq_some_iff.mp hpieces
      split at hpieces
      · cases hpieces
        exact ⟨by assumption, ipv6Pieces?_lt hns⟩
      · cases hpieces
    · obtain ⟨ns, hns, hpieces⟩ := Option.bind_eq_some_iff.mp hpieces
      obtain ⟨ms, hms, hpieces⟩ := Option.bind_eq_some_iff.mp hpieces
      split at hpieces
      · cases hpieces
        refine ⟨by simp only [List.length_append, List.length_replicate]; omega, fun n hn => ?_⟩
        simp only [List.mem_append, List.mem_replicate] at hn
        rcases hn with (hn | ⟨-, rfl⟩) | hn
        · exact forall_of_mapM (fun _ _ => hexPiece?_lt) hns n hn
        · decide
        · exact ipv6Pieces?_lt hms n hn
      · cases hpieces
  · cases hread

theorem writePieces_cons_cons (n m : Nat) (ns : List Nat) :
    writePieces (n :: m :: ns) = Nat.toDigits 16 n ++ ':' :: writePieces (m :: ns) := by
  rw [writePieces, List.map_cons, List.map_cons, List.intercalate_cons_cons, List.append_assoc]
  rfl

theorem writePieces_head (n : Nat) (ns : List Nat) :
    ∃ d cs, writePieces (n :: ns) = d :: cs ∧ d ≠ ':' := by
  obtain ⟨d, ds, hds⟩ := List.exists_cons_of_ne_nil (Nat.toDigits_ne_nil (b := 16) (n := n))
  have hd : d ≠ ':' := by
    rintro rfl
    exact notMem_toDigits (by decide) (hds ▸ List.mem_cons_self : ':' ∈ Nat.toDigits 16 n)
  cases ns with
  | nil => exact ⟨d, ds, by simp [writePieces, hds], hd⟩
  | cons m ns => exact ⟨d, _, by rw [writePieces_cons_cons, hds, List.cons_append], hd⟩

theorem groups_writePieces (pieces : List Nat) :
    groups (writePieces pieces) = pieces.map (Nat.toDigits 16) := by
  cases pieces with
  | nil => rfl
  | cons n ns =>
    obtain ⟨d, cs, heq, -⟩ := writePieces_head n ns
    rw [groups, if_neg (by simp [heq]), writePieces]
    refine Text.splitList_intercalate (by simp) fun piece hpiece => ?_
    obtain ⟨m, -, rfl⟩ := List.mem_map.mp hpiece
    exact notMem_toDigits (by decide)

theorem ipv6Pieces?_toDigits (hlt : ∀ n ∈ pieces, n < 65536) :
    ipv6Pieces? (pieces.map (Nat.toDigits 16)) = some pieces := by
  induction pieces with
  | nil => rfl
  | cons n ns ih =>
    rw [List.forall_mem_cons] at hlt
    cases ns with
    | nil =>
      rw [List.map_cons, List.map_nil, ipv6Pieces?, if_neg (notMem_toDigits (by decide)),
        hexPiece?_toDigits hlt.1]
      rfl
    | cons m ns =>
      rw [List.map_cons, ipv6Pieces?.eq_3 _ _ (by simp), hexPiece?_toDigits hlt.1, ih hlt.2]
      rfl

theorem mapM_hexPiece?_toDigits (hlt : ∀ n ∈ pieces, n < 65536) :
    (pieces.map (Nat.toDigits 16)).mapM hexPiece? = some pieces := by
  rw [mapM_map_some (f := Nat.toDigits 16) (k := id) fun n hn => hexPiece?_toDigits (hlt n hn), List.map_id]

theorem cutDoubleColon_append (hcs : ':' ∉ cs) (rest : List Char) :
    cutDoubleColon (cs ++ rest) = (cutDoubleColon rest).map fun (a, b) => (cs ++ a, b) := by
  induction cs with
  | nil => simp
  | cons c cs ih =>
    rw [List.mem_cons, not_or] at hcs
    rw [List.cons_append, cutDoubleColon.eq_3 _ _ fun _ hc => absurd hc.symm hcs.1, ih hcs.2, Option.map_map]
    rfl

/-- The colons between pieces stand alone. -/
theorem cutDoubleColon_writePieces (pieces : List Nat) (rest : List Char) :
    cutDoubleColon (writePieces pieces ++ rest) =
      (cutDoubleColon rest).map fun (a, b) => (writePieces pieces ++ a, b) := by
  induction pieces with
  | nil => exact cutDoubleColon_append List.not_mem_nil rest
  | cons n ns ih =>
    cases ns with
    | nil =>
      rw [writePieces, List.map_cons, List.map_nil, List.intercalate_singleton]
      exact cutDoubleColon_append (notMem_toDigits (by decide)) rest
    | cons m ns =>
      obtain ⟨d, cs, heq, hd⟩ := writePieces_head m ns
      rw [writePieces_cons_cons, List.append_assoc, cutDoubleColon_append (notMem_toDigits (by decide)),
        List.cons_append, heq, List.cons_append, cutDoubleColon.eq_3 _ _ fun t _ ht => ?_, ← List.cons_append,
        ← heq, ih, Option.map_map, Option.map_map]
      · congr 1
        funext p
        simp
      · exact hd (List.cons.inj ht).1

theorem foldl_longest (runs : List (Nat × Nat)) (best : Nat × Nat) :
    runs.foldl (fun (b : Nat × Nat) r => if b.2 < r.2 then r else b) best ∈ best :: runs := by
  induction runs generalizing best with
  | nil => exact List.mem_cons_self
  | cons r runs ih =>
    rw [List.foldl_cons]
    rcases List.mem_cons.mp (ih (if best.2 < r.2 then r else best)) with heq | hmem
    · rw [heq]
      split <;> simp
    · exact List.mem_cons_of_mem _ (List.mem_cons_of_mem _ hmem)

theorem zeroRun_some {start length : Nat} (hrun : zeroRun pieces = some (start, length)) :
    1 < length ∧ start + length ≤ pieces.length ∧
      pieces.take start ++ List.replicate length 0 ++ pieces.drop (start + length) = pieces := by
  unfold zeroRun at hrun
  dsimp only at hrun
  split at hrun
  · rename_i hbest
    have hmem := foldl_longest ((List.range pieces.length).map fun i =>
      (i, ((pieces.drop i).takeWhile (· = 0)).length)) (0, 0)
    rw [Option.some.inj hrun] at hmem hbest
    refine ⟨hbest, ?_⟩
    rcases List.mem_cons.mp hmem with heq | hmem
    · cases heq
      cases hbest
    · obtain ⟨i, hi, heq⟩ := List.mem_map.mp hmem
      cases heq
      have hlt := List.mem_range.mp hi
      generalize hzeros : (pieces.drop start).takeWhile (· = 0) = zeros
      have hsplit : zeros ++ (pieces.drop start).dropWhile (· = 0) = pieces.drop start := by
        rw [← hzeros, List.takeWhile_append_dropWhile]
      have hreplicate : List.replicate zeros.length 0 = zeros := by
        refine (List.eq_replicate_iff.mpr ⟨rfl, fun n hn => ?_⟩).symm
        rw [← hzeros] at hn
        exact of_decide_eq_true (List.all_eq_true.mp List.all_takeWhile n hn)
      have hlength := congrArg List.length hsplit
      rw [List.length_append, List.length_drop] at hlength
      refine ⟨by omega, ?_⟩
      rw [hreplicate, ← List.drop_drop, ← hsplit, List.drop_left, List.append_assoc, hsplit,
        List.take_append_drop]
  · cases hrun

theorem mem_writePieces {c : Char} (hc : c ∈ writePieces pieces) : c = ':' ∨ ∃ d < 16, c = Nat.digitChar d := by
  rcases Text.mem_intercalate hc with rfl | ⟨piece, hpiece, hmem⟩
  · exact .inl rfl
  · obtain ⟨n, -, rfl⟩ := List.mem_map.mp hpiece
    exact .inr (mem_toDigits hmem)

/-- What stands between the brackets is read back. -/
theorem readIpv6_write (hwhole : Whole pieces) :
    ∃ text, (Host.ipv6 pieces).write = '[' :: (text ++ [']']) ∧ readIpv6 text = .ok (.ipv6 pieces) ∧
      ∀ c ∈ text, c = ':' ∨ ∃ d < 16, c = Nat.digitChar d := by
  obtain ⟨hlength, hlt⟩ := hwhole
  rw [write]
  split
  · rename_i start length hrun
    obtain ⟨hlong, hend, heq⟩ := zeroRun_some hrun
    refine ⟨_, rfl, ?_, fun c hc => ?_⟩
    · have hfront := fun n hn => hlt n (List.mem_of_mem_take (i := start) hn)
      have hback := fun n hn => hlt n (List.mem_of_mem_drop (i := start + length) hn)
      rw [readIpv6, List.append_assoc, cutDoubleColon_writePieces]
      simp only [List.cons_append, List.nil_append, cutDoubleColon, Option.map_some, List.append_nil,
        groups_writePieces, mapM_hexPiece?_toDigits hfront, ipv6Pieces?_toDigits hback, Option.bind_eq_bind,
        Option.bind_some, List.length_take, List.length_drop, hlength]
      rw [if_pos (by omega)]
      have hgap : 8 - min start 8 - (8 - (start + length)) = length := by omega
      dsimp only
      rw [hgap, heq]
    · simp only [List.mem_append, List.mem_cons, List.not_mem_nil, or_false, or_self] at hc
      rcases hc with (hc | rfl) | hc
      · exact mem_writePieces hc
      · exact .inl rfl
      · exact mem_writePieces hc
  · refine ⟨_, rfl, ?_, fun c hc => mem_writePieces hc⟩
    have hcut := cutDoubleColon_writePieces pieces []
    rw [List.append_nil] at hcut
    rw [readIpv6, hcut]
    simp only [cutDoubleColon, Option.map_none, groups_writePieces, ipv6Pieces?_toDigits hlt,
      Option.bind_eq_bind, Option.bind_some, hlength, if_true]

theorem canonical_ipv6 (hwhole : Whole pieces) : (Host.ipv6 pieces).Canonical := by
  obtain ⟨text, hwrite, hread, hmem⟩ := readIpv6_write hwhole
  have hstays : ∀ c, (c = ':' ∨ ∃ d < 16, c = Nat.digitChar d) → endsHost c = false ∧ c ≠ ']' := by
    rintro c (rfl | ⟨d, hd, rfl⟩)
    · decide
    · have hall : ∀ d : Fin 16, endsHost (Nat.digitChar d.val) = false ∧ Nat.digitChar d.val ≠ ']' := by
        decide
      exact hall ⟨d, hd⟩
  refine ⟨?_, fun rest hrest => ?_, fun c hc => ?_, ?_⟩ <;> rw [hwrite] at *
  · rw [readSpecial, if_pos List.getLast?_concat, List.dropLast_concat, hread]
  · have hclose : ']' ∉ text := fun hc => (hstays _ (hmem _ hc)).2 rfl
    have hback : Url.cutHost false ([] ++ rest) = ([], rest) :=
      cutHost_of_notMem List.not_mem_nil List.not_mem_nil List.not_mem_nil hrest
    rw [List.nil_append] at hback
    rw [List.cons_append, List.append_assoc, List.singleton_append, Url.cutHost, if_neg (by decide), if_pos rfl,
      cutHost_bracketed hclose, hback]
  · simp only [List.mem_cons, List.mem_append, List.not_mem_nil, or_false] at hc
    rcases hc with rfl | hc | rfl
    · decide
    · exact (hstays c (hmem c hc)).1
    · decide
  · exact List.cons_ne_nil _ _

/-- Whatever host is read for a special scheme, its text is read as that host. -/
theorem canonical_of_readSpecial (hread : readSpecial cs = .ok h) : h.Canonical := by
  unfold readSpecial at hread
  split at hread
  · split at hread
    · obtain ⟨pieces, rfl, hwhole⟩ := readIpv6_ok hread
      exact canonical_ipv6 hwhole
    · cases hread
  · split at hread
    · cases hread
    · cases hread
    · rename_i name hne hname
      obtain ⟨s, -, hascii⟩ := Option.bind_eq_some_iff.mp hname
      obtain ⟨hplain, hstays⟩ := asciiName?_stays hascii
      split at hread
      · obtain ⟨a, rfl, ha⟩ := readIpv4_ok hread
        exact canonical_ipv4 ha
      · rename_i hnumber
        cases hread
        have hwrite : (Host.domain (String.ofList name)).write = name := String.toList_ofList
        refine canonical_name (hwrite.symm ▸ hplain) (hwrite.symm ▸ hne) ?_
        rw [hwrite, readSpecial_name hne hplain hstays, if_neg hnumber]

end CatalogClient.Host
