import CatalogClient.Proofs.Url.Below
/-!
The pairs in the query of a URL that was read are those of the text behind its first question mark: what
the reader escapes there stands for the same bytes.
-/

namespace CatalogClient

namespace Url

/-! ## Escapes in a query -/

/-- The byte that two hexadecimal digits at the head of a text stand for, and what is behind them. -/
def hexPair? : List Char → Option (UInt8 × List Char)
  | a :: b :: cs =>
    (hexValue? a).bind fun h => (hexValue? b).map fun l => (UInt8.ofNat (h * 16 + l), cs)
  | _ => none

theorem unescape_percent (cs : List Char) : unescape ('%' :: cs) = match hexPair? cs with
    | some (b, rest) => b :: unescape rest
    | none => 0x25 :: unescape cs := by
  match cs with
  | [] => rfl
  | [a] => rfl
  | a :: b :: cs =>
    rw [unescape, hexPair?]
    cases hexValue? a with
    | none => rfl
    | some h => cases hexValue? b <;> rfl

theorem length_hexPair? {cs rest : List Char} {b : UInt8} (h : hexPair? cs = some (b, rest)) :
    rest.length < cs.length := by
  match cs with
  | [] => cases h
  | [a] => cases h
  | a :: a' :: cs =>
    rw [hexPair?] at h
    obtain ⟨high, -, h⟩ := Option.bind_eq_some_iff.mp h
    obtain ⟨low, -, h⟩ := Option.map_eq_some_iff.mp h
    cases h
    simp only [List.length_cons]
    omega

/-- A way to write characters that leaves escapes alone: any character but those of an escape is written so
that it is read as the given bytes. -/
structure Spelling (bytes : Char → List UInt8) (f : Char → List Char) : Prop where
  percent : f '%' = ['%']
  digit : ∀ c, (hexValue? c).isSome → f c = [c]
  other : ∀ c, c ≠ '%' → hexValue? c = none → (∃ d ds, f c = d :: ds ∧ hexValue? d = none) ∧
    ∀ cs, unescape (f c ++ cs) = bytes c ++ unescape cs

namespace Spelling

variable {bytes : Char → List UInt8} {f f' : Char → List Char}

theorem head (hf : Spelling bytes f) {c : Char} (h : hexValue? c = none) :
    ∃ d ds, f c = d :: ds ∧ hexValue? d = none := by
  by_cases hc : c = '%'
  · exact ⟨'%', [], hc ▸ hf.percent, rfl⟩
  · exact (hf.other c hc h).1

theorem hexPair?_flatMap (hf : Spelling bytes f) (cs : List Char) :
    hexPair? (cs.flatMap f) = (hexPair? cs).map fun p => (p.1, p.2.flatMap f) := by
  have hnone : ∀ (d : Char) (ds : List Char), hexValue? d = none → hexPair? (d :: ds) = none := by
    intro d ds hd
    cases ds with
    | nil => rfl
    | cons d' ds => rw [hexPair?, hd]; rfl
  match cs with
  | [] => rfl
  | a :: cs =>
    rw [List.flatMap_cons]
    cases ha : hexValue? a with
    | none =>
      obtain ⟨d, ds, hd, hhex⟩ := hf.head ha
      rw [hd, List.cons_append, hnone d _ hhex, hnone a cs ha]
      rfl
    | some high =>
      rw [hf.digit a (ha ▸ rfl), List.singleton_append]
      match cs with
      | [] => rfl
      | b :: cs =>
        rw [List.flatMap_cons]
        cases hb : hexValue? b with
        | none =>
          obtain ⟨d, ds, hd, hhex⟩ := hf.head hb
          rw [hd, List.cons_append, hexPair?, hexPair?, hhex, hb, ha]
          rfl
        | some low =>
          rw [hf.digit b (hb ▸ rfl), List.singleton_append, hexPair?, hexPair?, ha, hb]
          rfl

/-- Texts that spell the same bytes are read as the same bytes. -/
theorem unescape_eq (hf : Spelling bytes f) (hf' : Spelling bytes f') (cs : List Char) :
    unescape (cs.flatMap f) = unescape (cs.flatMap f') := by
  -- An escape takes three characters at once, so the induction is on the length.
  induction hn : cs.length using Nat.strongRecOn generalizing cs with
  | ind n ih =>
    cases cs with
    | nil => rfl
    | cons c cs =>
      have hlt : cs.length < n := by
        rw [← hn]
        exact Nat.lt_succ_self _
      have hrest := ih cs.length hlt cs rfl
      rw [List.flatMap_cons, List.flatMap_cons]
      by_cases hc : c = '%'
      · rw [hc, hf.percent, hf'.percent, List.singleton_append, List.singleton_append, unescape_percent,
          unescape_percent, hf.hexPair?_flatMap, hf'.hexPair?_flatMap]
        cases hpair : hexPair? cs with
        | none => exact congrArg (0x25 :: ·) hrest
        | some p =>
          have hshort := length_hexPair? hpair
          exact congrArg (p.1 :: ·) (ih p.2.length (Nat.lt_trans hshort hlt) p.2 rfl)
      · cases hhex : hexValue? c with
        | none => rw [(hf.other c hc hhex).2, (hf'.other c hc hhex).2, hrest]
        | some n =>
          rw [hf.digit c (hhex ▸ rfl), hf'.digit c (hhex ▸ rfl), List.singleton_append, List.singleton_append,
            unescape_cons hc, unescape_cons hc, hrest]

end Spelling

namespace Form

/-- What a character of a form stands for before its escapes are read. -/
def plain (c : Char) : Char := if c = '+' then ' ' else c

theorem decode_eq (cs : List Char) : decode cs = Text.Utf8.decodeLossy (unescape (cs.map plain)) := rfl

end Form

/-- The characters that mean something in a form are kept in a query. -/
theorem keptInQuery_form (special : Bool) : keptInQuery special '%' = true ∧ keptInQuery special '+' = true ∧
    keptInQuery special '&' = true ∧ keptInQuery special '=' = true := by
  cases special <;> decide

theorem keptInQuery_hex (special : Bool) {c : Char} (h : (hexValue? c).isSome) :
    keptInQuery special c = true ∧ Form.plain c = c := by
  have hlt : c.toNat < 128 := by
    unfold hexValue? at h
    split at h
    · rename_i hdigit
      exact Nat.lt_of_le_of_lt (UInt32.le_iff_toNat_le.mp hdigit.2) (by decide)
    · split at h
      · rename_i hlower
        exact Nat.lt_of_le_of_lt (UInt32.le_iff_toNat_le.mp hlower.2) (by decide)
      · split at h
        · rename_i hupper
          exact Nat.lt_of_le_of_lt (UInt32.le_iff_toNat_le.mp hupper.2) (by decide)
        · cases h
  cases special
  · exact forall_ascii (q := fun c => (hexValue? c).isSome = true →
      keptInQuery false c = true ∧ Form.plain c = c) (by decide +kernel) hlt h
  · exact forall_ascii (q := fun c => (hexValue? c).isSome = true →
      keptInQuery true c = true ∧ Form.plain c = c) (by decide +kernel) hlt h

theorem plain_other {c : Char} (hc : c ≠ '%') (hhex : hexValue? c = none) :
    Form.plain c ≠ '%' ∧ hexValue? (Form.plain c) = none := by
  unfold Form.plain
  split
  · decide
  · exact ⟨hc, hhex⟩

theorem spelling_plain :
    Spelling (fun c => String.utf8EncodeChar (Form.plain c)) fun c => [Form.plain c] where
  percent := rfl
  digit c h := congrArg ([·]) (keptInQuery_hex true h).2
  other c hc hhex := by
    obtain ⟨hne, hplain⟩ := plain_other hc hhex
    exact ⟨⟨_, [], rfl, hplain⟩, fun cs => unescape_cons hne cs⟩

theorem spelling_escaped (special : Bool) : Spelling (fun c => String.utf8EncodeChar (Form.plain c))
    fun c => (escapeChar (keptInQuery special) c).map Form.plain where
  percent := by
    rw [escapeChar, if_pos (keptInQuery_form special).1]
    rfl
  digit c h := by
    obtain ⟨hkept, hplain⟩ := keptInQuery_hex special h
    rw [escapeChar, if_pos hkept, List.map_singleton, hplain]
  other c hc hhex := by
    obtain ⟨hne, hplain⟩ := plain_other hc hhex
    unfold escapeChar
    split
    · exact ⟨⟨_, [], rfl, hplain⟩, fun cs => unescape_cons hne cs⟩
    · rename_i hkept
      have hplus : c ≠ '+' := by
        rintro rfl
        exact hkept (keptInQuery_form special).2.1
      have hstays : Form.plain c = c := if_neg hplus
      have hmap : ((String.utf8EncodeChar c).flatMap escapeByte).map Form.plain =
          (String.utf8EncodeChar c).flatMap escapeByte := by
        refine Form.map_id_of_no_plus fun d hd => ?_
        obtain ⟨b, -, hmem⟩ := List.mem_flatMap.mp hd
        rintro rfl
        cases inEscape_escapeByte b hmem
      rw [hmap, hstays]
      refine ⟨?_, fun cs => unescape_escapeBytes _ cs⟩
      obtain ⟨b, bs, hbs⟩ := List.exists_cons_of_ne_nil (String.utf8EncodeChar_ne_nil (c := c))
      rw [hbs]
      exact ⟨'%', _, rfl, rfl⟩

namespace Form

variable (special : Bool)

theorem decode_escape (cs : List Char) : decode (escape (keptInQuery special) cs) = decode cs := by
  rw [decode_eq, decode_eq, escape, List.map_flatMap, List.map_eq_flatMap]
  exact congrArg _ ((spelling_escaped special).unescape_eq spelling_plain cs)

theorem escapeChar_separator {sep : Char} (hkept : keptInQuery special sep = true)
    (hsep : inEscape sep = false) : escapeChar (keptInQuery special) sep = [sep] ∧
      ∀ c, c ≠ sep → sep ∉ escapeChar (keptInQuery special) c := by
  refine ⟨if_pos hkept, fun c hc hmem => ?_⟩
  unfold escapeChar at hmem
  split at hmem
  · exact hc (List.mem_singleton.mp hmem).symm
  · obtain ⟨b, -, hmem⟩ := List.mem_flatMap.mp hmem
    rw [inEscape_escapeByte b hmem] at hsep
    cases hsep

theorem decodePair_escape (cs : List Char) :
    decodePair (escape (keptInQuery special) cs) = decodePair cs := by
  obtain ⟨hsep, hother⟩ := escapeChar_separator special (keptInQuery_form special).2.2.2 (by decide)
  rw [decodePair, escape, Text.cut?_flatMap hsep hother, decodePair]
  cases Text.cut? '=' cs with
  | none => exact congrArg (·, "") (decode_escape special cs)
  | some p => exact Prod.ext (decode_escape special p.1) (decode_escape special p.2)

/-- To escape a query does not change its pairs. -/
theorem decodePairs_escape (cs : List Char) :
    decodePairs (escape (keptInQuery special) cs) = decodePairs cs := by
  obtain ⟨hsep, hother⟩ := escapeChar_separator special (keptInQuery_form special).2.2.1 (by decide)
  have hnil : ∀ piece : List Char, piece.flatMap (escapeChar (keptInQuery special)) ≠ [] ↔ piece ≠ [] := by
    refine fun piece => not_congr ⟨escape_eq_nil, ?_⟩
    rintro rfl
    rfl
  rw [decodePairs, escape, Text.splitList_flatMap hsep hother, List.filter_map, List.map_map, decodePairs]
  simp only [Function.comp_def, hnil]
  exact List.map_congr_left fun piece _ => decodePair_escape special piece

end Form

/-! ## The query of a text -/

/-- The text behind the first question mark. -/
def queryIn (cs : List Char) : Option (List Char) := (Text.cut? '?' cs).map (·.2)

variable {front back cs : List Char} {u : Url}

theorem queryIn_of_notMem (h : '?' ∉ cs) : queryIn cs = none := by
  rw [queryIn, Text.cut?_of_notMem h]
  rfl

theorem queryIn_append (h : '?' ∉ front) (back : List Char) : queryIn (front ++ '?' :: back) = some back := by
  rw [queryIn, Text.cut?_append h]
  rfl

theorem queryIn_prepend (h : '?' ∉ front) (cs : List Char) : queryIn (front ++ cs) = queryIn cs := by
  by_cases hcs : '?' ∈ cs
  · obtain ⟨middle, back, rfl, hmiddle⟩ := List.eq_append_cons_of_mem hcs
    rw [← List.append_assoc, queryIn_append hmiddle, queryIn_append]
    rw [List.mem_append, not_or]
    exact ⟨h, hmiddle⟩
  · rw [queryIn_of_notMem hcs, queryIn_of_notMem]
    rw [List.mem_append, not_or]
    exact ⟨h, hcs⟩

/-- What counts of a text at the end of a URL. -/
def cleanEnd (cs : List Char) : List Char := (cs.rdropWhile isEdge).filter (! isBreak ·)

/-- The pairs in the query of a text without a fragment. -/
def pairsIn (cs : List Char) : List (String × String) :=
  (queryIn cs).elim [] fun q => Form.decodePairs (cleanEnd q)

theorem mem_of_mem_clean {c : Char} (h : c ∈ clean cs) : c ∈ cs :=
  (List.dropWhile_sublist _).subset ((List.rdropWhile_prefix _ _).subset (List.mem_filter.mp h).1)

/-- What does not count of a URL does not count of its query, and no more of the query than that. -/
theorem queryIn_clean (cs : List Char) : queryIn (clean cs) = (queryIn cs).map cleanEnd := by
  by_cases h : '?' ∈ cs
  · obtain ⟨front, back, rfl, hfront⟩ := List.eq_append_cons_of_mem h
    have hdrop : (front ++ '?' :: back).dropWhile isEdge = front.dropWhile isEdge ++ '?' :: back := by
      rw [List.dropWhile_append]
      split
      · rename_i hnil
        rw [List.isEmpty_iff.mp hnil]
        rfl
      · rfl
    have hclean : clean (front ++ '?' :: back) =
        (front.dropWhile isEdge).filter (! isBreak ·) ++ '?' :: cleanEnd back := by
      change (((front ++ '?' :: back).dropWhile isEdge).rdropWhile isEdge).filter _ = _
      rw [hdrop, Text.rdropWhile_append rfl, List.filter_append, List.filter_cons_of_pos (by rfl), cleanEnd]
    rw [hclean, queryIn_append hfront, queryIn_append]
    · rfl
    · exact fun hmem => hfront ((List.dropWhile_sublist _).subset (List.mem_filter.mp hmem).1)
  · rw [queryIn_of_notMem h, queryIn_of_notMem fun hmem => h (mem_of_mem_clean hmem)]
    rfl

/-! ## The query that is read -/

/-- A URL has the query of a text, in which characters may be escaped. -/
def Bears (u : Url) (query : Option (List Char)) : Prop :=
  ∃ special, u.query = query.map fun q => String.ofList (escape (keptInQuery special) q)

theorem Bears.pairs_eq {query : Option (List Char)} (h : u.Bears query) :
    u.pairs = query.elim [] Form.decodePairs := by
  obtain ⟨special, hquery⟩ := h
  rw [pairs, hquery]
  cases query with
  | none => rfl
  | some q => exact (congrArg _ String.toList_ofList).trans (Form.decodePairs_escape special q)

theorem query_cutTail (h : '#' ∉ cs) : (cutTail cs).2.1 = queryIn cs := by
  unfold cutTail queryIn
  rw [Text.cut?_of_notMem h]
  dsimp only
  cases Text.cut? '?' cs <;> rfl

variable {scheme : String}

theorem bears_of_readAuthority (hmark : '#' ∉ cs) (h : readAuthority scheme cs = .ok u) :
    u.Bears (queryIn cs) := by
  have hbehind : ∀ {special user hostText portText path fragment},
      behindUser special scheme user hostText portText (fun host port =>
        build scheme user (some host) port path (cutTail cs).2.1 fragment) = .ok u → u.Bears (queryIn cs) := by
    intro special user hostText portText path fragment h
    obtain ⟨host, port, rfl⟩ := behindUser_ok h
    exact ⟨_, by rw [← query_cutTail hmark]; rfl⟩
  unfold readAuthority at h
  dsimp only at h
  split at h
  · exact hbehind h
  · split at h
    · cases h
    · exact hbehind h

theorem bears_of_readFile (hmark : '#' ∉ cs) (h : readFile cs = .ok u) : u.Bears (queryIn cs) := by
  rw [← query_cutTail hmark]
  simp only [readFile, bind, Except.bind, pure, Except.pure] at h
  repeat' split at h
  all_goals first | (cases h; exact ⟨_, rfl⟩) | cases h

theorem bears_of_readOther (hmark : '#' ∉ cs) (h : readOther scheme cs = .ok u) : u.Bears (queryIn cs) := by
  unfold readOther at h
  split at h
  · rename_i rest
    rw [List.mem_cons, List.mem_cons, not_or, not_or] at hmark
    have hquery : queryIn ('/' :: '/' :: rest) = queryIn rest :=
      queryIn_prepend (by decide : '?' ∉ ['/', '/']) rest
    rw [hquery]
    exact bears_of_readAuthority hmark.2.2 h
  · rename_i rest _
    rw [List.mem_cons, not_or] at hmark
    have hquery : queryIn ('/' :: rest) = queryIn rest := queryIn_prepend (by decide : '?' ∉ ['/']) rest
    cases h
    rw [hquery, ← query_cutTail hmark.2]
    exact ⟨_, rfl⟩
  · cases h
    rw [← query_cutTail hmark]
    exact ⟨_, rfl⟩

theorem readScheme?_eq {rest : List Char} (h : readScheme? cs = some (scheme, rest)) :
    ∃ front, cs = front ++ rest ∧ '?' ∉ front := by
  unfold readScheme? at h
  split at h
  · rename_i c tail
    split at h
    · split at h
      · rename_i rest' hrest
        cases h
        have hsplit := List.takeWhile_append_dropWhile (p := isSchemeChar) (l := c :: tail)
        refine ⟨(c :: tail).takeWhile isSchemeChar ++ [':'], ?_, ?_⟩
        · rw [List.append_assoc, List.singleton_append, ← hrest, hsplit]
        · rw [List.mem_append, not_or]
          refine ⟨fun hmem => ?_, by decide⟩
          cases List.mem_takeWhile_imp hmem
      · cases h
    · cases h
  · cases h

theorem bears_of_read {s : String} (hmark : '#' ∉ s.toList) (h : read s = .ok u) :
    u.Bears (queryIn (clean s.toList)) := by
  unfold read at h
  split at h
  · cases h
  · rename_i scheme rest hscheme
    obtain ⟨front, hclean, hfront⟩ := readScheme?_eq hscheme
    have hrest : '#' ∉ rest := fun hmem =>
      hmark (mem_of_mem_clean (hclean ▸ List.mem_append_right front hmem))
    rw [hclean, queryIn_prepend hfront]
    split at h
    · exact bears_of_readFile hrest h
    · split at h
      · have hslashes : '?' ∉ rest.takeWhile (isSlash true) := fun hmem => by
          cases List.mem_takeWhile_imp hmem
        rw [← List.takeWhile_append_dropWhile (p := isSlash true) (l := rest), queryIn_prepend hslashes]
        exact bears_of_readAuthority (fun hmem => hrest ((List.dropWhile_sublist _).subset hmem)) h
      · exact bears_of_readOther hrest h

/-- A text without a fragment is read as a URL with the pairs of its query. -/
theorem pairs_of_read {s : String} (hmark : '#' ∉ s.toList) (h : read s = .ok u) :
    u.pairs = pairsIn s.toList := by
  rw [(bears_of_read hmark h).pairs_eq, queryIn_clean, pairsIn]
  cases queryIn s.toList <;> rfl

/-! ## Paths below a base -/

theorem Canonical.notMem_render (hu : u.Canonical) (hquery : u.query = none) (hfragment : u.fragment = none) :
    '?' ∉ u.render.toList ∧ '#' ∉ u.render.toList := by
  obtain ⟨h, hhost, hh⟩ := hu.host
  obtain ⟨parts, hpath, hne, hsegments⟩ := hu.path
  have hscheme : ∀ c ∈ u.scheme.toList, c ≠ '?' ∧ c ≠ '#' := by
    have hall : (u.scheme.toList.all fun c => c != '?' && c != '#') = true := by
      rcases hu.scheme with hs | hs <;> rw [hs] <;> decide
    simpa using hall
  have hauthority : ∀ c ∈ u.authority h, c ≠ '?' ∧ c ≠ '#' := fun c hc => (hu.inAuthority hh c hc).mark
  have hparts : ∀ c ∈ parts.flatMap ('/' :: ·), c ≠ '?' ∧ c ≠ '#' := by
    intro c hc
    obtain ⟨s, hs, hmem⟩ := List.mem_flatMap.mp hc
    rcases List.mem_cons.mp hmem with rfl | hmem
    · decide
    · exact (apart_of_keptInPath ((hsegments s hs).kept c hmem).1).2
  have hall : ∀ c ∈ u.render.toList, c ≠ '?' ∧ c ≠ '#' := by
    rw [toList_render hhost hpath hne hquery hfragment, origin]
    simp only [List.forall_mem_append, List.forall_mem_cons]
    refine ⟨⟨hscheme, ?_, ?_, ?_, hauthority⟩, hparts⟩ <;> decide
  exact ⟨fun hmem => (hall _ hmem).1 rfl, fun hmem => (hall _ hmem).2 rfl⟩

/-- Below a base without query and fragment a path keeps its own pairs. -/
theorem Canonical.pairs_below {base : Url} {path : String} (hbase : base.Canonical) (hquery : base.query = none)
    (hfragment : base.fragment = none) (hmark : '#' ∉ path.toList) (h : base.below path = .ok u) :
    u.pairs = pairsIn path.toList := by
  obtain ⟨hmark₀, hmark₁⟩ := hbase.notMem_render hquery hfragment
  have hdrop : ∀ {c}, c ∉ base.render.toList → c ≠ '/' →
      c ∉ base.render.toList.rdropWhile (· == '/') ++ ['/'] := by
    intro c hc hslash hmem
    rcases List.mem_append.mp hmem with hmem | hmem
    · exact hc ((List.rdropWhile_prefix _ _).subset hmem)
    · exact hslash (List.mem_singleton.mp hmem)
  have htext : (Text.dropTrailing '/' base.render ++ "/" ++ Text.dropLeading '/' path).toList =
      base.render.toList.rdropWhile (· == '/') ++ ['/'] ++ path.toList.dropWhile (· == '/') := by
    simp [Text.dropTrailing_eq, Text.dropLeading]
  have hslashes : '?' ∉ path.toList.takeWhile (· == '/') := fun hmem => by
    cases List.mem_takeWhile_imp hmem
  have hpath : queryIn path.toList = queryIn (path.toList.dropWhile (· == '/')) := by
    conv_lhs => rw [← List.takeWhile_append_dropWhile (p := (· == '/')) (l := path.toList)]
    exact queryIn_prepend hslashes _
  have hread := pairs_of_read ?_ h
  · rw [hread, pairsIn, htext, queryIn_prepend (hdrop hmark₀ (by decide)), ← hpath, pairsIn]
  · rw [htext, List.mem_append, not_or]
    exact ⟨hdrop hmark₁ (by decide), fun hmem => hmark ((List.dropWhile_sublist _).subset hmem)⟩

end Url

end CatalogClient
