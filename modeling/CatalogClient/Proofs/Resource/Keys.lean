import CatalogClient.Resource
import CatalogClient.Proofs.Config.Base
/-!
Keys in URLs: a key leads to the resource it names and to nothing else, unless it is a dot segment, or a
path with one. Those are what escaping leaves as they are, and the reader of the URL carries them out.
-/

namespace CatalogClient

namespace Url

/-- The segments of the path of a base, without the empty ones behind its last slashes. -/
def trunk (u : Url) : List String :=
  match u.path with
  | .segments parts => parts.rdropWhile (· = "")
  | .text _ => []

theorem trunk_of_segments {u : Url} {parts : List (List Char)}
    (hpath : u.path = .segments (parts.map String.ofList)) : u.trunk = (trimmed parts).map String.ofList := by
  have hempty : (fun s : String => decide (s = "")) ∘ String.ofList = List.isEmpty := by
    funext cs
    cases cs with
    | nil => rfl
    | cons c cs =>
      refine decide_eq_false fun h => ?_
      have hlist := congrArg String.toList h
      rw [String.toList_ofList] at hlist
      cases hlist
  rw [trunk, hpath]
  unfold trimmed List.rdropWhile
  dsimp only
  rw [← List.map_reverse, List.dropWhile_map, hempty, List.map_reverse]

end Url

namespace Resource

/-- The collections of the service. -/
def collections : List String :=
  [productsByUuid, products, productModels, families, categories, mediaFiles, categoryMediaFiles]

/-- The segments of the path of a collection. -/
def segments (collection : String) : List String := (Text.split '/' collection).drop 1

/-- The path of a resource whose key has the given parts. -/
def keyPath (collection : String) (parts : List String) : String :=
  collection ++ "/" ++ "/".intercalate (parts.map Url.escapeSegment)

theorem itemPath_eq (collection key : String) : itemPath collection key = keyPath collection [key] := by
  rw [itemPath, keyPath, List.map_singleton, String.intercalate_singleton]

theorem nestedPath_eq (collection key : String) :
    nestedPath collection key = keyPath collection (Text.split '/' key) := rfl

/-- The URL leads to the resource of a collection whose key has the given parts: behind the path of the base
and that of the collection stands one segment for each part, which stands for that part. -/
structure Addresses (base url : Url) (collection : String) (parts : List String) : Prop where
  origin : url.SameOrigin base
  path : ∃ tail, url.path = .segments (base.trunk ++ segments collection ++ tail) ∧
    tail.map Url.unescapeSegment? = parts.map some
  query : url.query = none
  fragment : url.fragment = none

variable {base url : Url} {collection collection' : String} {parts parts' : List String}

theorem segments_inj : ∀ c ∈ collections, ∀ d ∈ collections, segments c = segments d → c = d := by
  decide +kernel

theorem length_segments : ∀ c ∈ collections, (segments c).length = 4 := by
  decide +kernel

theorem exists_plainPath (hc : collection ∈ collections) :
    ∃ p : PlainPath, p.segments = segments collection ∧ p.text = collection := by
  have hall : ∀ c ∈ collections, segments c ≠ [] ∧ "/" ++ "/".intercalate (segments c) = c ∧
      ∀ s ∈ segments c, s ≠ "" ∧ s ≠ "." ∧ s ≠ ".." ∧ s.toList.all Url.isUnreserved = true := by
    decide +kernel
  obtain ⟨hne, htext, hplain⟩ := hall collection hc
  exact ⟨⟨segments collection, hne, hplain⟩, rfl, htext⟩

/-- A URL leads to one resource only. -/
theorem Addresses.unique (hc : collection ∈ collections) (hd : collection' ∈ collections)
    (h : Addresses base url collection parts) (h' : Addresses base url collection' parts') :
    collection = collection' ∧ parts = parts' := by
  obtain ⟨tail, hpath, hparts⟩ := h.path
  obtain ⟨tail', hpath', hparts'⟩ := h'.path
  rw [hpath, UrlPath.segments.injEq, List.append_assoc, List.append_assoc, List.append_cancel_left_eq] at hpath'
  have hlength := (length_segments _ hc).trans (length_segments _ hd).symm
  obtain ⟨hsegments, rfl⟩ := List.append_inj hpath' hlength
  refine ⟨segments_inj _ hc _ hd hsegments, ?_⟩
  rw [hparts] at hparts'
  exact (List.map_inj_right fun _ _ => Option.some.inj).mp hparts'

/-- The segments that stand for the parts of a key. -/
def written (parts : List String) : List (List Char) := parts.map fun s => Url.escape Url.isUnreserved s.toList

theorem written_kept {s : List Char} (hs : s ∈ written parts) :
    ∀ c ∈ s, Url.keptInPath c = true ∧ Url.isSlash true c = false := by
  obtain ⟨part, -, rfl⟩ := List.mem_map.mp hs
  intro c hc
  rcases Url.mem_escape hc with ⟨-, hkept⟩ | hescape
  · exact (Url.kept_of_isUnreserved hkept).1
  · exact ⟨(Url.kept_of_inEscape hescape).2.1, Url.notSlash_of_inEscape hescape⟩

theorem isDot_written (part : String) :
    Url.isDot (Url.escape Url.isUnreserved part.toList) = false ↔ part ≠ "." ∧ part ≠ ".." := by
  obtain ⟨hone, htwo⟩ := Url.isDot_escape part.toList
  rw [Url.isDot, Bool.or_eq_false_iff, Bool.eq_false_iff, Bool.eq_false_iff, Ne, Ne, hone, htwo,
    ne_eq, ne_eq, String.ext_iff, String.ext_iff]
  rfl

theorem toList_keyPath {p : PlainPath} (hparts : parts ≠ []) :
    (keyPath p.text parts).toList =
      '/' :: ['/'].intercalate (p.segments.map String.toList ++ written parts) := by
  have hne : p.segments.map String.toList ≠ [] := by simpa using p.ne_nil
  have hwritten : written parts ≠ [] := by simpa [written] using hparts
  have hlist : (parts.map Url.escapeSegment).map String.toList = written parts := by
    rw [List.map_map, written]
    exact List.map_congr_left fun s _ => String.toList_ofList
  rw [keyPath, String.toList_append, String.toList_append, String.toList_intercalate, hlist, p.toList_text]
  show ('/' :: ['/'].intercalate _) ++ ['/'] ++ ['/'].intercalate _ = _
  rw [List.append_assoc, List.singleton_append, ← Url.flatMap_slash hne, ← Url.flatMap_slash hwritten,
    ← List.flatMap_append, Url.flatMap_slash (by simp [hne])]

/-- The path of a key as the reader of the URL carries it out. -/
theorem below_keyPath (hbase : base.Canonical) (hquery : base.query = none) (hfragment : base.fragment = none)
    (hc : collection ∈ collections) (hparts : parts ≠ []) :
    ∃ done : List (List Char), done.reverse.map String.ofList = base.trunk ++ segments collection ∧
      base.below (keyPath collection parts) =
        .ok { base with
          path := .segments ((Url.walkAll false done (written parts)).reverse.map String.ofList) } := by
  obtain ⟨p, hsegments, rfl⟩ := exists_plainPath hc
  obtain ⟨trunk, hpath, -, -⟩ := hbase.path
  have hwritten : written parts ≠ [] := by simpa [written] using hparts
  have htext : Text.dropLeading '/' (keyPath p.text parts) =
      String.ofList (['/'].intercalate (p.segments.map String.toList ++ written parts)) := by
    have hlist := toList_keyPath (p := p) hparts
    cases hcollection : p.segments.map String.toList with
    | nil => exact absurd (List.map_eq_nil_iff.mp hcollection) p.ne_nil
    | cons first rest =>
      have hfirst := p.segment (hcollection ▸ List.mem_cons_self)
      obtain ⟨c, cs, rfl⟩ := List.exists_cons_of_ne_nil hfirst.1
      rw [hcollection, List.cons_append] at hlist
      refine Url.dropLeading_segments ?_ (.inr hlist)
      rintro rfl
      cases hfirst.2.2 '/' List.mem_cons_self
  have hkept : ∀ s ∈ p.segments.map String.toList ++ written parts, ∀ c ∈ s,
      Url.keptInPath c = true ∧ Url.isSlash true c = false :=
    List.forall_mem_append.mpr ⟨fun s hs c hc => (Url.kept_of_isUnreserved ((p.segment hs).2.2 c hc)).1,
      fun s hs => written_kept hs⟩
  refine ⟨(p.segments.map String.toList).reverse ++ (Url.trimmed trunk).reverse, ?_, ?_⟩
  · rw [List.reverse_append, List.reverse_reverse, List.reverse_reverse, List.map_append, List.map_map,
      Url.trunk_of_segments hpath, ← hsegments]
    simp
  · rw [hbase.below_segments hquery hfragment hpath (by simp [hwritten]) hkept htext,
      Url.walkAll_append (fun s hs => (p.segment hs).2.1) hwritten]

theorem notMem_keyPath (hc : collection ∈ collections) (hparts : parts ≠ []) :
    ':' ∉ (keyPath collection parts).toList := by
  obtain ⟨p, -, rfl⟩ := exists_plainPath hc
  rw [toList_keyPath hparts, List.mem_cons, not_or]
  refine ⟨by decide, fun hmem => ?_⟩
  rcases Text.mem_intercalate hmem with heq | ⟨s, hs, hcolon⟩
  · cases heq
  · rcases List.mem_append.mp hs with hs | hs
    · cases (p.segment hs).2.2 ':' hcolon
    · obtain ⟨part, -, rfl⟩ := List.mem_map.mp hs
      rcases Url.mem_escape hcolon with ⟨-, hkept⟩ | hescape
      · cases hkept
      · cases hescape

theorem addresses_iff {u : Url} {done : List (List Char)} (horigin : u.SameOrigin base)
    (hquery : u.query = none)
    (hfragment : u.fragment = none) (hparts : parts ≠ [])
    (hdone : done.reverse.map String.ofList = base.trunk ++ segments collection)
    (hpath : u.path = .segments ((Url.walkAll false done (written parts)).reverse.map String.ofList)) :
    Addresses base u collection parts ↔ ∀ part ∈ parts, part ≠ "." ∧ part ≠ ".." := by
  have hstill : (∀ s ∈ written parts, Url.isDot s = false) ↔ ∀ part ∈ parts, part ≠ "." ∧ part ≠ ".." := by
    simp only [written, List.forall_mem_map, isDot_written]
  rw [← hstill]
  constructor
  · intro haddresses
    obtain ⟨tail, htail, hdecoded⟩ := haddresses.path
    rw [hpath, UrlPath.segments.injEq, ← hdone] at htail
    have hlength : (Url.walkAll false done (written parts)).length = done.length + (written parts).length := by
      have hsegments := congrArg List.length htail
      have hkeys := congrArg List.length hdecoded
      simp only [List.length_map, List.length_reverse, List.length_append, written] at hsegments hkeys ⊢
      omega
    refine (Url.still_of_length hlength).resolve_right ?_
    rintro ⟨last, hlast, hdot, hhead⟩
    -- An empty segment stands last, and it stands for no dot segment.
    have hempty : tail.getLast? = some "" := by
      have hend := congrArg List.getLast? htail
      rw [List.getLast?_map, List.getLast?_reverse, hhead, List.getLast?_append] at hend
      cases htail : tail.getLast? with
      | some s =>
        rw [htail] at hend
        exact hend.symm
      | none =>
        rw [List.getLast?_eq_none_iff.mp htail] at hdecoded
        exact absurd (List.map_eq_nil_iff.mp hdecoded.symm) hparts
    have hpart := congrArg List.getLast? hdecoded
    rw [List.getLast?_map, List.getLast?_map, hempty] at hpart
    cases hkey : parts.getLast? with
    | none => exact hparts (List.getLast?_eq_none_iff.mp hkey)
    | some part =>
      rw [hkey] at hpart
      have hnil : part = "" := (Option.some.inj (Option.some.inj hpart)).symm
      rw [written, List.getLast?_map, hkey, hnil] at hlast
      cases Option.some.inj hlast
      cases hdot
  · intro hdots
    refine ⟨horigin, ⟨parts.map Url.escapeSegment, ?_, ?_⟩, hquery, hfragment⟩
    · rw [hpath, Url.walkAll_still hdots, List.reverse_append, List.reverse_reverse, List.map_append, hdone,
        written, List.map_map]
      rfl
    · simp only [List.map_map, Function.comp_def, Url.unescapeSegment?_escapeSegment]

variable {r : Request}

/-- The URL of a call for a key. -/
theorem url_of_keyPath (hbase : base.Canonical) (hquery : base.query = none) (hfragment : base.fragment = none)
    (hc : collection ∈ collections) (hparts : parts ≠ []) (hr : r.path = keyPath collection parts)
    (hnone : r.query = []) :
    ∃ url, r.url base = .ok url ∧
      (Addresses base url collection parts ↔ ∀ part ∈ parts, part ≠ "." ∧ part ≠ "..") := by
  obtain ⟨done, hdone, hbelow⟩ := below_keyPath hbase hquery hfragment hc hparts
  rw [← hr] at hbelow
  have habsolute : r.isAbsolute = false := Request.isAbsolute_of_notMem (hr ▸ notMem_keyPath hc hparts)
  obtain ⟨url, hurl, horigin, hpath, hmark, hown⟩ := Request.url_of_below habsolute hbelow
  have hown := hown hquery
  rw [Request.ownQuery, if_pos hnone] at hown
  exact ⟨url, hurl, addresses_iff (horigin.trans ⟨rfl, rfl, rfl, rfl, rfl⟩) hown (hmark.trans hfragment)
    hparts hdone hpath⟩

theorem url_of_collection (hbase : base.Canonical) (hquery : base.query = none)
    (hfragment : base.fragment = none) (hc : collection ∈ collections) (hr : r.path = collection)
    (hnone : r.query = []) :
    ∃ url, r.url base = .ok url ∧ Addresses base url collection [] := by
  obtain ⟨p, hsegments, htext⟩ := exists_plainPath hc
  obtain ⟨trunk, hpath, -, -⟩ := hbase.path
  have hne : p.segments.map String.toList ≠ [] := by simpa using p.ne_nil
  have hbelow := hbase.below_segments hquery hfragment hpath hne
    (fun s hs c hc => (Url.kept_of_isUnreserved ((p.segment hs).2.2 c hc)).1)
    (p.dropLeading (.inl (hr.trans htext.symm)))
  rw [Url.walkAll_still fun s hs => (p.segment hs).2.1] at hbelow
  have habsolute : r.isAbsolute = false :=
    Request.isAbsolute_of_notMem (by rw [hr, ← htext]; exact p.notMem_text (by decide) (by decide))
  obtain ⟨url, hurl, horigin, hread, hmark, hown⟩ := Request.url_of_below habsolute hbelow
  have hown := hown hquery
  rw [Request.ownQuery, if_pos hnone] at hown
  refine ⟨url, hurl, horigin.trans ⟨rfl, rfl, rfl, rfl, rfl⟩, ⟨[], ?_, rfl⟩, hown, hmark.trans hfragment⟩
  rw [hread, List.append_nil, Url.trunk_of_segments hpath, ← hsegments, List.reverse_append,
    List.reverse_reverse, List.reverse_reverse, List.map_append, List.map_map]
  simp

/-- The two ways in which a key stands in a path, with the parts of the key that are segments there. -/
inductive KeyPath (collection key : String) : String → List String → Prop
  | item : KeyPath collection key (itemPath collection key) [key]
  | nested : KeyPath collection key (nestedPath collection key) (Text.split '/' key)

variable {key key' path path' : String}

theorem KeyPath.path_eq (h : KeyPath collection key path parts) :
    path = keyPath collection parts ∧ parts ≠ [] ∧ "/".intercalate parts = key := by
  cases h with
  | item => exact ⟨itemPath_eq collection key, List.cons_ne_nil _ _, String.intercalate_singleton⟩
  | nested =>
    refine ⟨nestedPath_eq collection key, by simpa [Text.split] using Text.splitList_ne_nil '/' _, ?_⟩
    rw [String.ext_iff, String.toList_intercalate, Text.split, List.map_map]
    simp only [Function.comp_def, String.toList_ofList, List.map_id']
    exact Text.intercalate_splitList '/' key.toList

/-- A call for a key goes to the resource that the key names if and only if no part of the key is a dot
segment. Such calls for different keys go to different URLs, and none goes to a collection. -/
theorem keys_address_resources {c : Config} (hvalid : c.validate = .ok ()) (hbase : c.base = .ok base)
    (hquery : base.query = none) (hfragment : base.fragment = none) :
    (∀ collection ∈ collections, ∀ key path parts, KeyPath collection key path parts →
      ∀ r : Request, r.path = path → r.query = [] → ∃ url, r.url base = .ok url ∧
        (Addresses base url collection parts ↔ ∀ part ∈ parts, part ≠ "." ∧ part ≠ "..")) ∧
    (∀ collection ∈ collections, ∀ key path parts, KeyPath collection key path parts →
      (∀ part ∈ parts, part ≠ "." ∧ part ≠ "..") → ∀ r : Request, r.path = path → r.query = [] →
      (∀ collection' ∈ collections, ∀ key' path' parts', KeyPath collection' key' path' parts' →
        (∀ part ∈ parts', part ≠ "." ∧ part ≠ "..") → ∀ r' : Request, r'.path = path' → r'.query = [] →
        r.url base = r'.url base → collection = collection' ∧ key = key') ∧
      ∀ collection' ∈ collections, ∀ r' : Request, r'.path = collection' → r'.query = [] →
        r.url base ≠ r'.url base) := by
  obtain ⟨u, hread, hcanonical⟩ := (Config.valid_of_validate hvalid).base_canonical
  cases hbase.symm.trans hread
  have haddress : ∀ {collection key path parts}, collection ∈ collections → KeyPath collection key path parts →
      ∀ r : Request, r.path = path → r.query = [] → ∃ url, r.url base = .ok url ∧
        (Addresses base url collection parts ↔ ∀ part ∈ parts, part ≠ "." ∧ part ≠ "..") := by
    intro collection key path parts hc hkey r hr hnone
    obtain ⟨hpath, hparts, -⟩ := hkey.path_eq
    exact url_of_keyPath hcanonical hquery hfragment hc hparts (hr.trans hpath) hnone
  refine ⟨fun collection hc key path parts hkey => haddress hc hkey, ?_⟩
  intro collection hc key path parts hkey hdots r hr hnone
  obtain ⟨-, hparts, hwhole⟩ := hkey.path_eq
  obtain ⟨url, hurl, haddresses⟩ := haddress hc hkey r hr hnone
  constructor
  · intro collection' hc' key' path' parts' hkey' hdots' r' hr' hnone' hsame
    obtain ⟨-, -, hwhole'⟩ := hkey'.path_eq
    obtain ⟨url', hurl', haddresses'⟩ := haddress hc' hkey' r' hr' hnone'
    cases hurl.symm.trans (hsame.trans hurl')
    obtain ⟨hcollection, hsame⟩ := (haddresses.mpr hdots).unique hc hc' (haddresses'.mpr hdots')
    exact ⟨hcollection, hwhole.symm.trans (hsame ▸ hwhole')⟩
  · intro collection' hc' r' hr' hnone' hsame
    obtain ⟨url', hurl', haddresses'⟩ := url_of_collection hcanonical hquery hfragment hc' hr' hnone'
    cases hurl.symm.trans (hsame.trans hurl')
    exact hparts ((haddresses.mpr hdots).unique hc hc' haddresses').2

theorem keys_address_resources_slashed :
    let c := Config.make "https://pim.example.com/shop/" "id" "secret"
    c.validate = .ok () ∧ ∃ base url, c.base = .ok base ∧ base.trunk = ["shop"] ∧
      (remove products "../a b%").url base = .ok url ∧ Addresses base url products ["../a b%"] := by
  have hvalid : (Config.make "https://pim.example.com/shop/" "id" "secret").validate = .ok () := by
    decide +kernel
  have hbase : (Config.make "https://pim.example.com/shop/" "id" "secret").base =
      .ok ⟨"https", "", none, some (.domain "pim.example.com"), none, .segments ["shop", ""], none, none⟩ := by
    decide +kernel
  obtain ⟨url, hurl, haddresses⟩ := (keys_address_resources hvalid hbase rfl rfl).1 products (by decide)
    "../a b%" _ _ .item (remove products "../a b%") rfl rfl
  exact ⟨hvalid, _, url, hbase, by decide, hurl, haddresses.mpr (by decide)⟩

/-- The call that removes the product with two dots for a key goes to what stands above the collection. -/
theorem dots_leave_collection :
    let c := Config.make "https://pim.example.com" "id" "secret"
    c.validate = .ok () ∧ ∃ base url, c.base = .ok base ∧ base.query = none ∧ base.fragment = none ∧
      (remove products "..").url base = .ok url ∧ url.path = .segments ["api", "rest", "v1", ""] ∧
      ¬ Addresses base url products [".."] := by
  refine ⟨by decide +kernel,
    ⟨"https", "", none, some (.domain "pim.example.com"), none, .segments [""], none, none⟩,
    ⟨"https", "", none, some (.domain "pim.example.com"), none, .segments ["api", "rest", "v1", ""],
      none, none⟩,
    by decide +kernel, rfl, rfl, by decide +kernel, rfl, fun haddresses => ?_⟩
  obtain ⟨tail, htail, hdecoded⟩ := haddresses.path
  have hlength := congrArg List.length (UrlPath.segments.inj htail)
  have hkey := congrArg List.length hdecoded
  rw [List.length_append, List.length_append, length_segments products (by decide)] at hlength
  simp only [List.length_map, List.length_cons, List.length_nil] at hlength hkey
  omega

end Resource

end CatalogClient
