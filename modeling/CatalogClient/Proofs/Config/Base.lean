import CatalogClient.Attempt
import CatalogClient.Config
import CatalogClient.Proofs.Url.Below
/-!
The base URL of valid settings: the paths of the service, that of tokens among them, stand behind the path
of a base that has neither a query nor a fragment.
-/

namespace CatalogClient

/-- The path of an operation: segments of characters that stand for themselves. -/
structure PlainPath where
  segments : List String
  ne_nil : segments ≠ []
  plain : ∀ s ∈ segments, s ≠ "" ∧ s ≠ "." ∧ s ≠ ".." ∧ s.toList.all Url.isUnreserved = true

namespace PlainPath

variable (p : PlainPath)

def text : String := "/" ++ "/".intercalate p.segments

theorem toList_text : p.text.toList = '/' :: ['/'].intercalate (p.segments.map String.toList) := by
  rw [text, String.toList_append, String.toList_intercalate]
  rfl

theorem segment {s : List Char} (hs : s ∈ p.segments.map String.toList) :
    s ≠ [] ∧ Url.isDot s = false ∧ ∀ c ∈ s, Url.isUnreserved c = true := by
  obtain ⟨t, ht, rfl⟩ := List.mem_map.mp hs
  obtain ⟨hne, hdot, hdots, hall⟩ := p.plain t ht
  rw [List.all_eq_true] at hall
  refine ⟨mt String.toList_eq_nil_iff.mp hne, ?_, hall⟩
  have hkept := Url.escape_of_kept hall
  have hiff := Url.isDot_escape t.toList
  rw [hkept] at hiff
  rw [Url.isDot, Bool.or_eq_false_iff, Bool.eq_false_iff, Bool.eq_false_iff, Ne, Ne, hiff.1, hiff.2]
  exact ⟨fun h => hdot (String.ext_iff.mpr h), fun h => hdots (String.ext_iff.mpr h)⟩

theorem dropLeading {s : String} (h : s = p.text ∨ "/" ++ s = p.text) :
    Text.dropLeading '/' s = String.ofList (['/'].intercalate (p.segments.map String.toList)) := by
  have hlist : s.toList = ['/'].intercalate (p.segments.map String.toList) ∨
      s.toList = '/' :: ['/'].intercalate (p.segments.map String.toList) := by
    rcases h with rfl | h
    · exact .inr p.toList_text
    · have hlist := congrArg String.toList h
      rw [String.toList_append, toList_text] at hlist
      exact .inl (List.cons.inj hlist).2
  cases hsegments : p.segments.map String.toList with
  | nil => exact absurd (List.map_eq_nil_iff.mp hsegments) p.ne_nil
  | cons first rest =>
    have hfirst := p.segment (hsegments ▸ List.mem_cons_self)
    obtain ⟨c, cs, rfl⟩ := List.exists_cons_of_ne_nil hfirst.1
    rw [hsegments] at hlist
    refine Url.dropLeading_segments ?_ hlist
    rintro rfl
    cases hfirst.2.2 '/' List.mem_cons_self

theorem notMem_text {c : Char} (hslash : c ≠ '/') (hc : Url.isUnreserved c = false) : c ∉ p.text.toList := by
  rw [toList_text, List.mem_cons, not_or]
  refine ⟨hslash, fun hmem => ?_⟩
  rcases Text.mem_intercalate hmem with heq | ⟨s, hs, hmem⟩
  · exact hslash heq
  · rw [(p.segment hs).2.2 c hmem] at hc
    cases hc

theorem exists_mem_text : ∃ c ∈ p.text.toList, c ≠ '/' := by
  obtain ⟨first, rest, hsegments⟩ := List.exists_cons_of_ne_nil p.ne_nil
  have hmem : first.toList ∈ p.segments.map String.toList := by simp [hsegments]
  have hfirst := p.segment hmem
  obtain ⟨c, cs, hcs⟩ := List.exists_cons_of_ne_nil hfirst.1
  refine ⟨c, ?_, ?_⟩
  · rw [toList_text]
    exact List.mem_cons_of_mem _ (Text.mem_intercalate_of_mem hmem (hcs ▸ List.mem_cons_self))
  · rintro rfl
    cases hfirst.2.2 '/' (hcs ▸ List.mem_cons_self)

end PlainPath

namespace Url

/-- The text of the path of a URL. -/
def written (u : Url) : String := String.ofList (writePath u.path)

theorem kept_of_isUnreserved {c : Char} (h : isUnreserved c = true) :
    (keptInPath c = true ∧ isSlash true c = false) ∧ keptInQuery true c = true := by
  have hlt : c.toNat < 128 := by
    simp only [isUnreserved, Bool.or_eq_true, decide_eq_true_eq] at h
    rcases h with (((h | rfl) | rfl) | rfl) | rfl
    · exact inEscape_lt (by simp [inEscape, h])
    all_goals decide
  exact forall_ascii (q := fun c => isUnreserved c = true →
    (keptInPath c = true ∧ isSlash true c = false) ∧ keptInQuery true c = true) (by decide +kernel) hlt h

variable {base : Url} {p : PlainPath} {s : String}

/-- Behind a base without query and fragment the path of an operation follows the path of the base. -/
theorem Canonical.below_plain (hbase : base.Canonical) (hquery : base.query = none)
    (hfragment : base.fragment = none) (hs : s = p.text ∨ "/" ++ s = p.text) :
    ∃ path, base.below s = .ok { base with path := path } ∧
      String.ofList (writePath path) = Text.dropTrailing '/' base.written ++ p.text := by
  obtain ⟨parts, hpath, -, hsegments⟩ := hbase.path
  have hne : p.segments.map String.toList ≠ [] := by simpa using p.ne_nil
  refine ⟨_, hbase.below_segments hquery hfragment hpath hne (fun s hs c hc => ?_) (p.dropLeading hs), ?_⟩
  · exact (kept_of_isUnreserved ((p.segment hs).2.2 c hc)).1
  · have hslash : ∀ s ∈ parts, '/' ∉ s := fun s hs hc => by cases ((hsegments s hs).kept _ hc).2
    have hwritten : base.written.toList = parts.flatMap ('/' :: ·) := by
      rw [written, String.toList_ofList, hpath, writePath, List.flatMap_map]
      simp only [String.toList_ofList]
    have hnil : ([] : List Char).rdropWhile (· == '/') = [] := rfl
    have htrim := rdropWhile_segments hnil hslash
    rw [List.nil_append, List.nil_append] at htrim
    rw [walkAll_still fun s hs => (p.segment hs).2.1, Text.dropTrailing_eq, hwritten, htrim, String.ext_iff,
      String.toList_append, String.toList_ofList, String.toList_ofList, p.toList_text, ← flatMap_slash hne,
      writePath, List.flatMap_map, ← List.flatMap_append]
    simp only [String.toList_ofList, List.reverse_append, List.reverse_reverse]

theorem written_ne (s : String) (p : PlainPath) : s ≠ Text.dropTrailing '/' s ++ p.text := by
  intro heq
  have hlist := congrArg String.toList heq
  rw [Text.dropTrailing_eq, String.toList_append, String.toList_ofList] at hlist
  have hsplit := List.rdropWhile_append_rtakeWhile (p := (· == '/')) (l := s.toList)
  have htake := List.append_cancel_left (hsplit.trans hlist)
  obtain ⟨c, hc, hne⟩ := p.exists_mem_text
  rw [← htake] at hc
  exact hne (beq_iff_eq.mp (List.mem_rtakeWhile_imp (p := (· == '/')) hc))

/-- Two URLs that lead to the same service. -/
structure SameOrigin (a b : Url) : Prop where
  scheme : a.scheme = b.scheme
  username : a.username = b.username
  password : a.password = b.password
  host : a.host = b.host
  port : a.port = b.port

theorem SameOrigin.trans {a b d : Url} (h : a.SameOrigin b) (h' : b.SameOrigin d) : a.SameOrigin d :=
  ⟨h.scheme.trans h'.scheme, h.username.trans h'.username, h.password.trans h'.password,
    h.host.trans h'.host, h.port.trans h'.port⟩

/-- Whatever the base, a path below it is read, and leaves the path of the base behind a query or a fragment
as it is. -/
theorem Canonical.below_total (hbase : base.Canonical) (hs : s = p.text ∨ "/" ++ s = p.text) :
    ∃ url, base.below s = .ok url ∧ url.SameOrigin base ∧
      (base.query = none ∧ base.fragment = none →
        url.written = Text.dropTrailing '/' base.written ++ p.text ∧ url.query = none ∧ url.fragment = none) ∧
      (¬ (base.query = none ∧ base.fragment = none) → url.written = base.written) := by
  have hkept : ∀ c ∈ (Text.dropLeading '/' s).toList, keptInQuery true c = true ∧ keptInFragment c = true := by
    intro c hc
    rw [p.dropLeading hs, String.toList_ofList] at hc
    rcases Text.mem_intercalate hc with rfl | ⟨segment, hsegment, hmem⟩
    · decide
    · obtain ⟨⟨hpath, -⟩, hquery⟩ := kept_of_isUnreserved ((p.segment hsegment).2.2 c hmem)
      exact ⟨hquery, keptInFragment_of_keptInPath hpath⟩
  cases hfragment : base.fragment with
  | some f =>
    refine ⟨_, hbase.below_fragment hfragment fun c hc => (hkept c hc).2, ⟨rfl, rfl, rfl, rfl, rfl⟩, ?_, ?_⟩
    · rintro ⟨-, h⟩
      cases h
    · exact fun _ => rfl
  | none =>
    cases hquery : base.query with
    | some q =>
      refine ⟨_, hbase.below_query hquery hfragment fun c hc => (hkept c hc).1,
        ⟨rfl, rfl, rfl, rfl, rfl⟩, ?_, ?_⟩
      · rintro ⟨h, -⟩
        cases h
      · exact fun _ => rfl
    | none =>
      obtain ⟨path, hread, hwritten⟩ := hbase.below_plain hquery hfragment hs
      refine ⟨_, hread, ⟨rfl, rfl, rfl, rfl, rfl⟩, fun _ => ⟨hwritten, hquery, hfragment⟩, ?_⟩
      exact fun h => absurd ⟨rfl, rfl⟩ h

end Url

namespace Request

variable {r : Request} {base : Url}

theorem isAbsolute_of_notMem (h : ':' ∉ r.path.toList) : r.isAbsolute = false := by
  have hstart : ∀ start : String, ':' ∈ start.toList → Text.startsWith start r.path = false := by
    intro start hcolon
    rw [Bool.eq_false_iff, Ne, Text.startsWith, List.isPrefixOf_iff_prefix]
    exact fun hstarts => h (hstarts.subset hcolon)
  rw [isAbsolute, hstart "http://" (by decide), hstart "https://" (by decide)]
  rfl

/-- The query of a URL that has the pairs of a call and no others. -/
def ownQuery (r : Request) : Option String :=
  if r.query = [] then none else some (String.ofList (Url.Form.encodePairs r.query))

theorem url_of_below {u : Url} (habsolute : r.isAbsolute = false) (hbelow : base.below r.path = .ok u) :
    ∃ url, r.url base = .ok url ∧ url.SameOrigin u ∧ url.path = u.path ∧ url.fragment = u.fragment ∧
      (u.query = none → url.query = r.ownQuery) := by
  have heq : r.url base = .ok (if r.query = [] then u else u.withPairs r.query) := by
    rw [url, habsolute, if_neg (by decide), hbelow]
    rfl
  refine ⟨_, heq, ?_⟩
  unfold ownQuery
  split
  · exact ⟨⟨rfl, rfl, rfl, rfl, rfl⟩, rfl, rfl, id⟩
  · refine ⟨⟨rfl, rfl, rfl, rfl, rfl⟩, rfl, rfl, fun hquery => ?_⟩
    simp [Url.withPairs, hquery]

/-- The URL of an operation behind any base. -/
theorem url_of_plainPath (hbase : base.Canonical) {p : PlainPath}
    (hr : r.path = p.text ∨ "/" ++ r.path = p.text) :
    ∃ url, r.url base = .ok url ∧ url.SameOrigin base ∧
      (url.written = Text.dropTrailing '/' base.written ++ p.text ∧ url.query = r.ownQuery ∧
          url.fragment = none ↔
        base.query = none ∧ base.fragment = none) := by
  obtain ⟨u, hbelow, hsame, hclean, hother⟩ := hbase.below_total hr
  have hcolon : ':' ∉ r.path.toList := by
    have hmem := p.notMem_text (c := ':') (by decide) (by decide)
    rcases hr with hr | hr
    · rwa [hr]
    · rw [← hr, String.toList_append, List.mem_append, not_or] at hmem
      exact hmem.2
  obtain ⟨url, hurl, horigin, hpath, hfragment, hquery⟩ := url_of_below (isAbsolute_of_notMem hcolon) hbelow
  have hwritten : url.written = u.written := by rw [Url.written, hpath, Url.written]
  refine ⟨url, hurl, horigin.trans hsame, ?_⟩
  rw [hwritten, hfragment]
  constructor
  · rintro ⟨htext, -⟩
    by_contra hunclean
    rw [hother hunclean] at htext
    exact Url.written_ne _ _ htext
  · intro h
    obtain ⟨htext, hnone, hmark⟩ := hclean h
    exact ⟨htext, hquery hnone, hmark⟩

end Request

namespace Config

variable {c : Config}

/-- What the check of the settings leaves. -/
structure Valid (c : Config) : Prop where
  base : ∃ u, Url.read c.baseUrl = .ok u ∧ (u.scheme = "http" ∨ u.scheme = "https")
  token : ∀ text, c.tokenUrl = some text → ∃ u, Url.read text = .ok u
  client : Text.trim c.clientId ≠ "" ∧ c.clientSecret ≠ ""
  user : c.username.isSome = c.password.isSome
  timeout : c.timeoutSeconds ≠ 0
  limit : c.rateLimitCalls ≠ 0 ∧ c.rateLimitPeriodSeconds ≠ 0
  bulk : c.bulkBatchSize ≠ 0 ∧ c.bulkConcurrency ≠ 0
  backoff : c.backoffBaseMillis ≤ c.backoffMaxMillis

theorem ok_of_mapError {ε δ α : Type} {f : ε → δ} {x : Except ε α} {a : α} (h : x.mapError f = .ok a) :
    x = .ok a := by
  cases x with
  | error e => cases h
  | ok b =>
    cases h
    rfl

theorem valid_of_check (h : c.check = .ok ()) : c.Valid := by
  simp only [check, bind, Except.bind, pure, Except.pure, throw, throwThe, MonadExceptOf.throw] at h
  have hweb : ∀ {u : Url}, ¬ (u.scheme ≠ "http" ∧ u.scheme ≠ "https") →
      u.scheme = "http" ∨ u.scheme = "https" := by
    intro u h
    by_contra hweb
    exact h (not_or.mp hweb)
  repeat' split at h
  all_goals try cases h
  · rename_i u hbase hscheme _ text htext _ v htoken hid hsecret huser htimeout hcalls hperiod hbulk hbackoff
    refine ⟨⟨u, ok_of_mapError hbase, hweb hscheme⟩, fun t ht => ?_, ⟨hid, hsecret⟩, not_not.mp huser,
      htimeout, ⟨hcalls, hperiod⟩, not_or.mp hbulk, Nat.not_lt.mp hbackoff⟩
    rw [htext] at ht
    cases ht
    exact ⟨v, ok_of_mapError htoken⟩
  · rename_i u hbase hscheme _ hnone hid hsecret huser htimeout hcalls hperiod hbulk hbackoff
    exact ⟨⟨u, ok_of_mapError hbase, hweb hscheme⟩, fun t ht => absurd ht (hnone t), ⟨hid, hsecret⟩,
      not_not.mp huser, htimeout, ⟨hcalls, hperiod⟩, not_or.mp hbulk, Nat.not_lt.mp hbackoff⟩

theorem valid_of_validate (h : c.validate = .ok ()) : c.Valid := valid_of_check (ok_of_mapError h)

theorem Valid.base_canonical (h : c.Valid) : ∃ base, c.base = .ok base ∧ base.Canonical := by
  obtain ⟨u, hread, hscheme⟩ := h.base
  exact ⟨u, by rw [Config.base, hread]; rfl, Url.canonical_of_read hread hscheme⟩

def tokenPlainPath : PlainPath where
  segments := ["api", "oauth", "v1", "token"]
  ne_nil := List.cons_ne_nil _ _
  plain := by decide

theorem text_tokenPlainPath : tokenPlainPath.text = tokenPath := by decide

theorem tokenEndpoint_below {base : Url} (hbase : c.base = .ok base) (htoken : c.tokenUrl = none) :
    c.tokenEndpoint = (Request.get tokenPath).url base := by
  have habsolute : (Request.get tokenPath).isAbsolute = false := by decide
  rw [tokenEndpoint, htoken, hbase, Request.url, habsolute]
  simp only [Bool.false_eq_true, if_false, Request.get, Request.make, if_true, bind, Except.bind]
  generalize base.below tokenPath = read
  cases read <;> rfl

/-- Every operation has a URL on the service of the base, and the URL of tokens is that of their path. The
path of an operation stands behind that of the base exactly where the base has no query and no fragment. -/
theorem paths_behind_base (hvalid : c.validate = .ok ()) :
    ∃ base, c.base = .ok base ∧
      (c.tokenUrl = none → c.tokenEndpoint = (Request.get tokenPath).url base) ∧
      ∀ (r : Request) (p : PlainPath), (r.path = p.text ∨ "/" ++ r.path = p.text) →
        ∃ url, r.url base = .ok url ∧ url.SameOrigin base ∧
          (url.written = Text.dropTrailing '/' base.written ++ p.text ∧ url.query = r.ownQuery ∧
              url.fragment = none ↔
            base.query = none ∧ base.fragment = none) := by
  obtain ⟨base, hbase, hcanonical⟩ := (valid_of_validate hvalid).base_canonical
  exact ⟨base, hbase, tokenEndpoint_below hbase, fun r p hr => Request.url_of_plainPath hcanonical hr⟩

theorem paths_behind_base_nested :
    let c := make "https://pim.example.com/shop//" "id" "secret"
    c.validate = .ok () ∧ ∃ base url, c.base = .ok base ∧ base.written = "/shop//" ∧
      (Request.get tokenPath).url base = .ok url ∧ c.tokenEndpoint = .ok url ∧
      url.written = "/shop/api/oauth/v1/token" ∧ url.query = none ∧ url.fragment = none := by
  have hvalid : (make "https://pim.example.com/shop//" "id" "secret").validate = .ok () := by decide +kernel
  obtain ⟨base, hbase, htoken, hpaths⟩ := paths_behind_base hvalid
  obtain ⟨url, hurl, -, hiff⟩ := hpaths (.get tokenPath) tokenPlainPath (.inl text_tokenPlainPath.symm)
  have hread : Url.read "https://pim.example.com/shop//" = .ok ⟨"https", "", none,
      some (.domain "pim.example.com"), none, .segments ["shop", "", ""], none, none⟩ := by decide +kernel
  have heq : base = ⟨"https", "", none, some (.domain "pim.example.com"), none, .segments ["shop", "", ""],
      none, none⟩ := by
    have hbase' : (Url.read "https://pim.example.com/shop//").mapError Failure.invalidUrl = .ok base := hbase
    rw [hread] at hbase'
    exact (Except.ok.inj hbase').symm
  subst heq
  obtain ⟨hwritten, hquery, hfragment⟩ := hiff.mpr ⟨rfl, rfl⟩
  refine ⟨hvalid, _, url, hbase, by decide, hurl, (htoken rfl).trans hurl, hwritten.trans ?_, hquery,
    hfragment⟩
  decide +kernel

/-- A base with a query is valid, and the path of an operation becomes a part of that query. -/
theorem query_takes_path :
    let c := make "https://pim.example.com/?tenant=a" "id" "secret"
    c.validate = .ok () ∧ ∃ base url, c.base = .ok base ∧
      (Request.get "/api/rest/v1/families").url base = .ok url ∧ url.written = "/" ∧
      url.query = some "tenant=a/api/rest/v1/families" := by
  refine ⟨by decide +kernel, ?_⟩
  refine ⟨⟨"https", "", none, some (.domain "pim.example.com"), none, .segments [""], some "tenant=a", none⟩,
    ⟨"https", "", none, some (.domain "pim.example.com"), none, .segments [""],
      some "tenant=a/api/rest/v1/families", none⟩, ?_, ?_, ?_, rfl⟩
  all_goals decide +kernel

end Config

end CatalogClient
