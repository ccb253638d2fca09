import CatalogClient.Proofs.Url.Reader
/-!
URLs are read back: the text of a web URL that was read gives that URL again, and another path behind the
same authority gives the same URL with that path.
-/

namespace CatalogClient.Url

variable {u : Url} {cs : List Char}

theorem cutLast?_append {sep : Char} {front back : List Char} (h : sep ∉ back) :
    cutLast? sep (front ++ sep :: back) = some (front, back) := by
  have hcut := Text.cut?_append (mt List.mem_reverse.mp h) front.reverse
  rw [cutLast?, List.reverse_append, List.reverse_cons, List.append_assoc, List.singleton_append, hcut]
  simp

theorem cutLast?_of_notMem {sep : Char} (h : sep ∉ cs) : cutLast? sep cs = none := by
  rw [cutLast?, Text.cut?_of_notMem (mt List.mem_reverse.mp h)]
  rfl

/-- What stands before the path of a URL is told from the path, the query and the fragment. -/
theorem cutTail_written {query fragment : Option (List Char)} (hfront : '?' ∉ cs ∧ '#' ∉ cs)
    (hquery : ∀ q, query = some q → '#' ∉ q) :
    cutTail (cs ++ (query.elim [] ('?' :: ·)) ++ (fragment.elim [] ('#' :: ·))) = (cs, query, fragment) := by
  have hmark : '#' ∉ cs ++ query.elim [] ('?' :: ·) := by
    cases query with
    | none => simpa using hfront.2
    | some q => simpa using ⟨hfront.2, hquery q rfl⟩
  have hcut : Text.cut? '?' (cs ++ query.elim [] ('?' :: ·)) = query.map fun q => (cs, q) := by
    cases query with
    | none => exact Text.cut?_of_notMem (by simpa using hfront.1)
    | some q => exact Text.cut?_append hfront.1 q
  unfold cutTail
  cases fragment with
  | none =>
    rw [Option.elim_none, List.append_nil, Text.cut?_of_notMem hmark]
    dsimp only
    rw [hcut]
    cases query <;> simp
  | some f =>
    rw [Option.elim_some, Text.cut?_append hmark f]
    dsimp only
    rw [hcut]
    cases query <;> simp

theorem clean_of_notEdge (h : ∀ c ∈ cs, isEdge c = false) : clean cs = cs := by
  have hdrop : ∀ ds : List Char, (∀ c ∈ ds, isEdge c = false) → ds.dropWhile isEdge = ds := by
    intro ds hds
    cases ds with
    | nil => rfl
    | cons d ds => rw [List.dropWhile_cons_of_neg (by simp [hds d List.mem_cons_self])]
  have hbreak : ∀ c ∈ cs, (!isBreak c) = true := by
    intro c hc
    have hedge := h c hc
    simp only [isBreak, Bool.not_eq_true', Bool.or_eq_false_iff, decide_eq_false_iff_not]
    refine ⟨⟨?_, ?_⟩, ?_⟩ <;> rintro rfl <;> cases hedge
  rw [clean, hdrop cs h, hdrop _ fun c hc => h c (List.mem_reverse.mp hc), List.reverse_reverse,
    List.filter_eq_self.mpr hbreak]

theorem ascii_of_keptInFragment {c : Char} (h : keptInFragment c = true) : c.toNat < 128 := by
  simp only [keptInFragment, notControl, Bool.and_eq_true, decide_eq_true_eq] at h
  exact Nat.lt_of_le_of_lt (UInt32.le_iff_toNat_le.mp h.1.1.1.1.1.2) (by decide)

theorem keptInFragment_of_keptInPath {c : Char} (h : keptInPath c = true) : keptInFragment c = true := by
  simp only [keptInPath, Bool.and_eq_true] at h
  exact h.1.1.1.1

theorem keptInPath_of_keptInUserinfo {c : Char} (h : keptInUserinfo c = true) : keptInPath c = true := by
  simp only [keptInUserinfo, Bool.and_eq_true] at h
  exact h.1.1.1.1.1.1.1.1.1.1

theorem notEdge_of_keptInFragment {c : Char} (h : keptInFragment c = true) : isEdge c = false :=
  forall_ascii (q := fun c => keptInFragment c = true → isEdge c = false) (by decide)
    (ascii_of_keptInFragment h) h

theorem ascii_of_keptInQuery {c : Char} (h : keptInQuery true c = true) : c.toNat < 128 := by
  simp only [keptInQuery, notControl, Bool.and_eq_true, decide_eq_true_eq] at h
  exact Nat.lt_of_le_of_lt (UInt32.le_iff_toNat_le.mp h.1.1.1.1.1.1.2) (by decide)

theorem notEdge_of_keptInQuery {c : Char} (h : keptInQuery true c = true) : isEdge c = false ∧ c ≠ '#' :=
  forall_ascii (q := fun c => keptInQuery true c = true → isEdge c = false ∧ c ≠ '#') (by decide)
    (ascii_of_keptInQuery h) h

theorem apart_of_keptInPath {c : Char} (h : keptInPath c = true) : isEdge c = false ∧ c ≠ '?' ∧ c ≠ '#' := by
  refine ⟨notEdge_of_keptInFragment (keptInFragment_of_keptInPath h), ?_, ?_⟩ <;> rintro rfl <;> cases h

/-- The characters of an authority. -/
structure InAuthority (c : Char) : Prop where
  edge : isEdge c = false
  slash : isSlash true c = false
  mark : c ≠ '?' ∧ c ≠ '#'

theorem inAuthority_of_host {c : Char} (h : Host.endsHost c = false) : InAuthority c ∧ c ≠ '@' := by
  simp only [Host.endsHost, Bool.or_eq_false_iff, decide_eq_false_iff_not, List.mem_cons, List.not_mem_nil,
    or_false, not_or] at h
  obtain ⟨hedge, hslash, hback, hquery, hmark, hat⟩ := h
  exact ⟨⟨hedge, by simp [isSlash, hslash, hback], hquery, hmark⟩, hat⟩

theorem inAuthority_of_userinfo {c : Char} (h : keptInUserinfo c = true) : InAuthority c ∧ c ≠ ':' := by
  have hpath := keptInPath_of_keptInUserinfo h
  have hlt := ascii_of_keptInFragment (keptInFragment_of_keptInPath hpath)
  obtain ⟨hedge, hmark⟩ := apart_of_keptInPath hpath
  have hrest : isSlash true c = false ∧ c ≠ ':' :=
    forall_ascii (q := fun c => keptInUserinfo c = true → isSlash true c = false ∧ c ≠ ':')
      (by decide +kernel) hlt h
  exact ⟨⟨hedge, hrest.1, hmark⟩, hrest.2⟩

theorem endsHost_of_isDigit {c : Char} (h : Decimal.isDigit c = true) : Host.endsHost c = false := by
  have hlt : c.toNat < 128 := by
    simp only [Decimal.isDigit, Bool.and_eq_true, decide_eq_true_eq] at h
    exact Nat.lt_of_le_of_lt (UInt32.le_iff_toNat_le.mp h.2) (by decide)
  exact forall_ascii (q := fun c => Decimal.isDigit c = true → Host.endsHost c = false) (by decide) hlt h

/-! The text between the two slashes and the path, in its two parts. -/

def userText (u : Url) : List Char :=
  u.username.toList ++ u.password.elim [] fun p => ':' :: p.toList

def portText (u : Url) : List Char := u.port.elim [] fun p => ':' :: Decimal.write p

def authority (u : Url) (h : Host) : List Char :=
  (if u.userText = [] then [] else u.userText ++ ['@']) ++ (h.write ++ u.portText)

theorem writeAuthority_eq (u : Url) (h : Host) : u.writeAuthority h = '/' :: '/' :: u.authority h := by
  unfold writeAuthority authority userText portText
  cases u.password <;> cases u.port <;> simp

theorem Canonical.portText_stays (hu : u.Canonical) : (u.portText = [] ∨ u.portText.head? = some ':') ∧
    (∀ c ∈ u.portText, Host.endsHost c = false) ∧ readPortText u.scheme u.portText = .ok u.port := by
  unfold portText
  cases hport : u.port with
  | none => exact ⟨.inl rfl, fun _ hc => absurd hc List.not_mem_nil, rfl⟩
  | some p =>
    obtain ⟨hle, hne⟩ := hu.port p hport
    have hvalue : Decimal.value (Decimal.write p) = p := Nat.ofDigitChars_ten_toDigits
    refine ⟨.inr rfl, ?_, ?_⟩
    · refine List.forall_mem_cons.mpr ⟨by decide, fun c hc => ?_⟩
      exact endsHost_of_isDigit (Decimal.isDigit_of_mem_write hc)
    · rw [Option.elim_some, readPortText, readPort, hvalue, if_neg, if_neg]
      · exact not_or.mpr ⟨Decimal.write_ne_nil p, hne⟩
      · refine not_or.mpr ⟨not_not_intro ?_, by omega⟩
        exact List.all_eq_true.mpr fun c hc => Decimal.isDigit_of_mem_write hc

theorem Canonical.userText_stays (hu : u.Canonical) : (∀ c ∈ u.userText, InAuthority c) ∧
    (u.userText ≠ [] → readUserinfo u.userText = ⟨u.username, u.password⟩) ∧
    (u.userText = [] → noUser = ⟨u.username, u.password⟩) := by
  have hname := escape_of_kept hu.username
  have hcolon : ':' ∉ u.username.toList := fun hc => (inAuthority_of_userinfo (hu.username _ hc)).2 rfl
  have hchars : ∀ c ∈ u.username.toList, InAuthority c := fun c hc =>
    (inAuthority_of_userinfo (hu.username c hc)).1
  unfold userText
  cases hpassword : u.password with
  | none =>
    rw [Option.elim_none, List.append_nil]
    refine ⟨hchars, fun _ => ?_, fun hnil => ?_⟩
    · rw [readUserinfo, Text.cut?_of_notMem hcolon]
      dsimp only
      rw [hname, String.ofList_toList]
    · rw [noUser, String.toList_eq_nil_iff.mp hnil]
  | some p =>
    obtain ⟨hne, hkept⟩ := hu.password p hpassword
    rw [Option.elim_some]
    refine ⟨?_, fun _ => ?_, fun hnil => by simp at hnil⟩
    · intro c hc
      rcases List.mem_append.mp hc with hc | hc
      · exact hchars c hc
      · rcases List.mem_cons.mp hc with rfl | hc
        · exact ⟨by decide, by decide, by decide⟩
        · exact (inAuthority_of_userinfo (hkept c hc)).1
    · rw [readUserinfo, Text.cut?_append hcolon]
      dsimp only
      split
      · rename_i heq
        cases heq
      · rename_i heq
        exact absurd (congrArg Prod.snd (Option.some.inj heq)) hne
      · rename_i heq
        cases heq
        rw [hname, escape_of_kept hkept, String.ofList_toList, String.ofList_toList]

variable {h : Host} {p : List Char}

theorem Canonical.readUser_authority (hu : u.Canonical) (hh : h.Canonical) :
    readUser (u.authority h) = .ok (⟨u.username, u.password⟩, h.write ++ u.portText) := by
  obtain ⟨-, hport, -⟩ := hu.portText_stays
  obtain ⟨-, hsome, hnone⟩ := hu.userText_stays
  have hat : '@' ∉ h.write ++ u.portText := fun hc => by
    have hends : Host.endsHost '@' = false := (List.mem_append.mp hc).elim (hh.stays _) (hport _)
    cases hends
  unfold authority readUser
  by_cases hnil : u.userText = []
  · rw [if_pos hnil, List.nil_append, cutLast?_of_notMem hat, hnone hnil]
  · rw [if_neg hnil, List.append_assoc, List.singleton_append, cutLast?_append hat]
    dsimp only
    rw [if_neg fun h => hnil h.1, hsome hnil]

theorem Canonical.inAuthority (hu : u.Canonical) (hh : h.Canonical) : ∀ c ∈ u.authority h, InAuthority c := by
  obtain ⟨-, hport, -⟩ := hu.portText_stays
  obtain ⟨huser, -⟩ := hu.userText_stays
  intro c hc
  rcases List.mem_append.mp hc with hc | hc
  · split at hc
    · cases hc
    · rcases List.mem_append.mp hc with hc | hc
      · exact huser c hc
      · cases List.mem_singleton.mp hc
        exact ⟨by decide, by decide, by decide⟩
  · exact (inAuthority_of_host ((List.mem_append.mp hc).elim (hh.stays c) (hport c))).1

theorem Canonical.readAuthority_written (hu : u.Canonical) (hhost : u.host = some h) (hh : h.Canonical)
    (hp : ∀ c ∈ p, keptInPath c = true) :
    readAuthority u.scheme (u.authority h ++ '/' :: p ++ u.writeQuery ++ u.writeFragment) =
      .ok { u with path := readSegments true false p } := by
  have hspecial : isSpecial u.scheme = true := by rcases hu.scheme with hs | hs <;> rw [hs] <;> rfl
  have hauthority := hu.inAuthority hh
  have hquery : u.writeQuery = (u.query.map String.toList).elim [] ('?' :: ·) := by
    unfold writeQuery
    cases u.query <;> rfl
  have hfragment : u.writeFragment = (u.fragment.map String.toList).elim [] ('#' :: ·) := by
    unfold writeFragment
    cases u.fragment <;> rfl
  have htail : cutTail (u.authority h ++ '/' :: p ++ u.writeQuery ++ u.writeFragment) =
      (u.authority h ++ '/' :: p, u.query.map String.toList, u.fragment.map String.toList) := by
    rw [hquery, hfragment]
    refine cutTail_written ⟨fun hc => ?_, fun hc => ?_⟩ fun q hq hc => ?_
    · rcases List.mem_append.mp hc with hc | hc
      · exact (hauthority _ hc).mark.1 rfl
      · exact (apart_of_keptInPath (hp _ (by simpa using hc))).2.1 rfl
    · rcases List.mem_append.mp hc with hc | hc
      · exact (hauthority _ hc).mark.2 rfl
      · exact (apart_of_keptInPath (hp _ (by simpa using hc))).2.2 rfl
    · obtain ⟨text, htext, rfl⟩ := Option.map_eq_some_iff.mp hq
      exact (notEdge_of_keptInQuery (hu.query text htext _ hc)).2 rfl
  have hslash : ∀ c ∈ u.authority h, (!isSlash true c) = true := fun c hc => by
    rw [(hauthority c hc).slash]
    rfl
  have htext : authorityText (u.authority h ++ '/' :: p ++ u.writeQuery ++ u.writeFragment) =
      u.authority h := by
    rw [authorityText, htail, List.takeWhile_append_of_pos hslash]
    exact List.append_nil _
  have hpath : Url.pathText (u.authority h ++ '/' :: p ++ u.writeQuery ++ u.writeFragment) = '/' :: p := by
    rw [pathText, htail, List.dropWhile_append_of_pos hslash]
    rfl
  obtain ⟨hcut, -, hport⟩ := hu.portText_stays
  rw [readAuthority_web hspecial, htext, hpath, htail, hu.readUser_authority hh]
  simp only [bind, Except.bind]
  rw [hh.cut _ hcut, readHost, if_neg hh.ne_nil, hh.reads, hport]
  have hq : (u.query.map String.toList).map (fun q => String.ofList (escape (keptInQuery true) q)) =
      u.query := by
    cases hquery : u.query with
    | none => rfl
    | some q => simp [escape_of_kept (hu.query q hquery)]
  have hf : (u.fragment.map String.toList).map (fun f => String.ofList (escape keptInFragment f)) =
      u.fragment := by
    cases hfragment : u.fragment with
    | none => rfl
    | some f => simp [escape_of_kept (hu.fragment f hfragment)]
  simp only [build, hspecial, hq, hf, readAuthorityPath]
  rw [hhost]
  rfl

/-- The text of a URL with another path behind its authority. -/
def textWith (u : Url) (h : Host) (p : List Char) : List Char :=
  u.scheme.toList ++ ':' :: '/' :: '/' :: (u.authority h ++ '/' :: p ++ u.writeQuery ++ u.writeFragment)

theorem Canonical.notEdge (hu : u.Canonical) (hh : h.Canonical) (hp : ∀ c ∈ p, keptInPath c = true) :
    ∀ c ∈ u.textWith h p, isEdge c = false := by
  have hscheme : ∀ c ∈ u.scheme.toList, isEdge c = false := by
    have hall : (u.scheme.toList.all fun c => ! isEdge c) = true := by
      rcases hu.scheme with hs | hs <;> rw [hs] <;> decide
    simpa using hall
  have hquery : ∀ c ∈ u.writeQuery, isEdge c = false := by
    unfold writeQuery
    split
    · exact fun _ hc => absurd hc List.not_mem_nil
    · rename_i q hq
      exact List.forall_mem_cons.mpr ⟨by decide, fun c hc => (notEdge_of_keptInQuery (hu.query q hq c hc)).1⟩
  have hfragment : ∀ c ∈ u.writeFragment, isEdge c = false := by
    unfold writeFragment
    split
    · exact fun _ hc => absurd hc List.not_mem_nil
    · rename_i f hf
      exact List.forall_mem_cons.mpr ⟨by decide, fun c hc => notEdge_of_keptInFragment (hu.fragment f hf c hc)⟩
  have hfront : ∀ c ∈ u.authority h ++ '/' :: p, isEdge c = false :=
    List.forall_mem_append.mpr ⟨fun c hc => (hu.inAuthority hh c hc).edge,
      List.forall_mem_cons.mpr ⟨by decide, fun c hc => (apart_of_keptInPath (hp c hc)).1⟩⟩
  unfold textWith
  simp only [List.forall_mem_append, List.forall_mem_cons] at hfront ⊢
  exact ⟨hscheme, by decide, by decide, by decide, ⟨hfront, hquery⟩, hfragment⟩

/-- A URL with another path behind its authority is read as it was, with the path that this text is read as. -/
theorem Canonical.read_textWith (hu : u.Canonical) (hhost : u.host = some h) (hh : h.Canonical)
    (hp : ∀ c ∈ p, keptInPath c = true) :
    read (String.ofList (u.textWith h p)) = .ok { u with path := readSegments true false p } := by
  have hhead : (u.authority h ++ '/' :: p ++ u.writeQuery ++ u.writeFragment).dropWhile (isSlash true ·) =
      u.authority h ++ '/' :: p ++ u.writeQuery ++ u.writeFragment := by
    cases hauthority : u.authority h with
    | nil =>
      simp only [authority, List.append_eq_nil_iff] at hauthority
      exact absurd hauthority.2.1 hh.ne_nil
    | cons a rest =>
      have hslash := (hu.inAuthority hh a (hauthority ▸ List.mem_cons_self)).slash
      exact List.dropWhile_cons_of_neg (by simp [hslash])
  have hread := hu.readAuthority_written hhost hh hp
  have hclean := clean_of_notEdge (hu.notEdge hh hp)
  rw [← hhead] at hread
  unfold read
  rw [String.toList_ofList, hclean]
  unfold textWith
  generalize u.authority h ++ '/' :: p ++ u.writeQuery ++ u.writeFragment = text at *
  rcases hu.scheme with hs | hs
  all_goals
    rw [hs] at hread ⊢
    exact hread

theorem Canonical.render_eq {parts : List (List Char)} (hhost : u.host = some h)
    (hpath : u.path = .segments (parts.map String.ofList)) (hne : parts ≠ []) :
    u.render = String.ofList (u.textWith h (['/'].intercalate parts)) := by
  have hwrite : writePath u.path = '/' :: ['/'].intercalate parts := by
    rw [hpath, ← flatMap_slash hne, writePath, List.flatMap_map]
    simp only [String.toList_ofList]
  rw [render, writeHierarchy, hhost]
  dsimp only
  rw [hwrite, writeAuthority_eq, textWith]
  simp only [List.cons_append, List.append_assoc]

/-- A URL that was read is read from its own text. -/
theorem Canonical.read_render (hu : u.Canonical) : read u.render = .ok u := by
  obtain ⟨h, hhost, hh⟩ := hu.host
  obtain ⟨parts, hpath, hne, hsegments⟩ := hu.path
  have hkept : ∀ c ∈ ['/'].intercalate parts, keptInPath c = true := by
    intro c hc
    rcases Text.mem_intercalate hc with rfl | ⟨s, hs, hmem⟩
    · decide
    · exact ((hsegments s hs).kept c hmem).1
  rw [render_eq hhost hpath hne, hu.read_textWith hhost hh hkept,
    readSegments_written hne fun s hs => (hsegments s hs).kept,
    walkAll_still fun s hs => (hsegments s hs).still,
    List.append_nil, List.reverse_reverse, ← hpath]

end CatalogClient.Url
