import CatalogClient.Url.Join
import CatalogClient.Proofs.Url.ReadBack
import Mathlib.Data.List.DropRight
/-!
Paths below a base: behind a base that has neither a query nor a fragment they follow its segments, and
behind any other they become part of its query or its fragment.
-/

namespace CatalogClient

namespace Text

variable {cs front back : List Char} {sep : Char}

theorem dropTrailing_eq (sep : Char) (s : String) :
    dropTrailing sep s = String.ofList (s.toList.rdropWhile (· == sep)) := rfl

theorem rdropWhile_append {p : Char → Bool} {c : Char} (hc : p c = false) (front back : List Char) :
    (front ++ c :: back).rdropWhile p = front ++ c :: back.rdropWhile p := by
  induction back using List.reverseRecOn with
  | nil =>
    rw [List.rdropWhile_concat_neg p front c (by simp [hc]), List.rdropWhile_nil]
  | append_singleton back d ih =>
    rw [← List.cons_append, ← List.append_assoc]
    cases hd : p d with
    | true => rw [List.rdropWhile_concat_pos _ _ _ hd, ih, List.rdropWhile_concat_pos _ _ _ hd]
    | false =>
      rw [List.rdropWhile_concat_neg _ _ _ (by simp [hd]), List.rdropWhile_concat_neg _ _ _ (by simp [hd])]
      simp

end Text

namespace Url

variable {u : Url} {h : Host} {parts ss : List (List Char)} {path : String}

/-- The segments without the empty ones at the end. -/
def trimmed (parts : List (List Char)) : List (List Char) := parts.rdropWhile (·.isEmpty)

theorem mem_trimmed {s : List Char} (hs : s ∈ trimmed parts) : s ∈ parts :=
  (List.rdropWhile_prefix _ _).subset hs

/-- Trailing slashes are what trailing empty segments are written as. -/
theorem rdropWhile_segments {front : List Char} (hfront : front.rdropWhile (· == '/') = front)
    (hparts : ∀ s ∈ parts, '/' ∉ s) :
    (front ++ parts.flatMap ('/' :: ·)).rdropWhile (· == '/') =
      front ++ (trimmed parts).flatMap ('/' :: ·) := by
  induction parts using List.reverseRecOn with
  | nil => simpa [trimmed] using hfront
  | append_singleton parts s ih =>
    rw [List.forall_mem_append] at hparts
    rw [List.flatMap_append, List.flatMap_singleton]
    rcases List.eq_nil_or_concat s with rfl | ⟨s, c, rfl⟩
    · rw [← List.append_assoc, List.rdropWhile_concat_pos _ _ _ (by rfl), ih hparts.1, trimmed, trimmed,
        List.rdropWhile_concat_pos _ _ _ rfl]
    · have hc : ¬ (c == '/') = true := by
        intro hc
        exact hparts.2 _ List.mem_cons_self (by simp [beq_iff_eq.mp hc])
      rw [trimmed, List.rdropWhile_concat_neg _ _ _ (by simp), List.flatMap_append, List.flatMap_singleton,
        List.concat_eq_append, ← List.cons_append, ← List.append_assoc, ← List.append_assoc,
        List.rdropWhile_concat_neg (· == '/') _ _ hc]

/-- What stands before the path. -/
def origin (u : Url) (h : Host) : List Char := u.scheme.toList ++ ':' :: '/' :: '/' :: u.authority h

theorem textWith_eq (u : Url) (h : Host) (p : List Char) :
    u.textWith h p = u.origin h ++ '/' :: p ++ u.writeQuery ++ u.writeFragment := by
  simp [textWith, origin]

theorem textWith_plain (hquery : u.query = none) (hfragment : u.fragment = none) (p : List Char) :
    u.textWith h p = u.origin h ++ '/' :: p := by
  rw [textWith_eq, writeQuery, writeFragment, hquery, hfragment, List.append_nil, List.append_nil]

theorem toList_render (hhost : u.host = some h) (hpath : u.path = .segments (parts.map String.ofList))
    (hne : parts ≠ []) (hquery : u.query = none) (hfragment : u.fragment = none) :
    u.render.toList = u.origin h ++ parts.flatMap ('/' :: ·) := by
  rw [Canonical.render_eq hhost hpath hne, String.toList_ofList, textWith_plain hquery hfragment,
    flatMap_slash hne]

theorem Canonical.authority_concat (hu : u.Canonical) (hh : h.Canonical) :
    ∃ front c, u.authority h = front ++ [c] ∧ (c == '/') = false := by
  rcases List.eq_nil_or_concat (u.authority h) with hnil | ⟨front, c, heq⟩
  · simp only [authority, List.append_eq_nil_iff] at hnil
    exact absurd hnil.2.1 hh.ne_nil
  · rw [List.concat_eq_append] at heq
    refine ⟨front, c, heq, ?_⟩
    have hslash := (hu.inAuthority hh c (by simp [heq])).slash
    rw [isSlash, Bool.or_eq_false_iff] at hslash
    simpa using hslash.1

theorem Canonical.origin_stays (hu : u.Canonical) (hh : h.Canonical) :
    (u.origin h).rdropWhile (· == '/') = u.origin h := by
  obtain ⟨front, c, heq, hc⟩ := hu.authority_concat hh
  rw [origin, heq, ← List.cons_append, ← List.cons_append, ← List.cons_append, ← List.append_assoc]
  exact Text.rdropWhile_append (p := (· == '/')) hc _ []

theorem flatMap_append_slash (hne : ss ≠ []) :
    (trimmed parts).flatMap ('/' :: ·) ++ '/' :: ['/'].intercalate ss =
      '/' :: ['/'].intercalate (trimmed parts ++ ss) := by
  rw [← flatMap_slash hne, ← flatMap_slash (by simp [hne]), List.flatMap_append]

/-- A path with or without a slash in front of its first segment. -/
theorem dropLeading_segments {s : String} {c : Char} {cs : List Char} (hc : c ≠ '/')
    (hs : s.toList = ['/'].intercalate ((c :: cs) :: ss) ∨
      s.toList = '/' :: ['/'].intercalate ((c :: cs) :: ss)) :
    Text.dropLeading '/' s = String.ofList (['/'].intercalate ((c :: cs) :: ss)) := by
  have hhead : ∃ rest, ['/'].intercalate ((c :: cs) :: ss) = c :: rest := by
    cases ss with
    | nil => exact ⟨cs, List.intercalate_singleton⟩
    | cons s ss => exact ⟨_, by rw [List.intercalate_cons_cons, List.cons_append, List.cons_append]⟩
  obtain ⟨rest, hrest⟩ := hhead
  have hstays : (c :: rest).dropWhile (· == '/') = c :: rest := List.dropWhile_cons_of_neg (by simpa using hc)
  rw [hrest] at hs ⊢
  rw [Text.dropLeading]
  rcases hs with hs | hs
  · rw [hs, hstays]
  · rw [hs, List.dropWhile_cons_of_pos rfl, hstays]

/-- Behind a base without query and fragment a path is read from the segments of the base on. -/
theorem Canonical.below_segments (hu : u.Canonical) (hquery : u.query = none) (hfragment : u.fragment = none)
    (hpath : u.path = .segments (parts.map String.ofList)) (hne : ss ≠ [])
    (hss : ∀ s ∈ ss, ∀ c ∈ s, keptInPath c = true ∧ isSlash true c = false)
    (htext : Text.dropLeading '/' path = String.ofList (['/'].intercalate ss)) :
    u.below path =
      .ok { u with
        path := .segments ((walkAll false (trimmed parts).reverse ss).reverse.map String.ofList) } := by
  obtain ⟨h, hhost, hh⟩ := hu.host
  obtain ⟨parts', hpath', hparts, hsegments⟩ := hu.path
  have hsame : parts' = parts := by
    rw [hpath', UrlPath.segments.injEq] at hpath
    exact (List.map_inj_right fun _ _ => String.ofList_inj.mp).mp hpath
  subst hsame
  have htrimmed : ∀ s ∈ trimmed parts', Segment s := fun s hs => hsegments s (mem_trimmed hs)
  have hrender := toList_render hhost hpath hparts hquery hfragment
  have hslash : ∀ s ∈ parts', '/' ∉ s := fun s hs hc => by cases ((hsegments s hs).kept _ hc).2
  have hjoin : Text.dropTrailing '/' u.render ++ "/" ++ Text.dropLeading '/' path =
      String.ofList (u.textWith h (['/'].intercalate (trimmed parts' ++ ss))) := by
    rw [Text.dropTrailing_eq, hrender, rdropWhile_segments (hu.origin_stays hh) hslash, htext,
      textWith_plain hquery hfragment, ← flatMap_append_slash hne]
    simp [String.ext_iff]
  have hall : ∀ s ∈ trimmed parts' ++ ss, ∀ c ∈ s, keptInPath c = true ∧ isSlash true c = false :=
    List.forall_mem_append.mpr ⟨fun s hs => (htrimmed s hs).kept, hss⟩
  have hkept : ∀ c ∈ ['/'].intercalate (trimmed parts' ++ ss), keptInPath c = true := by
    intro c hc
    rcases Text.mem_intercalate hc with rfl | ⟨s, hs, hmem⟩
    · decide
    · exact (hall s hs c hmem).1
  rw [below, hjoin, hu.read_textWith hhost hh hkept, readSegments_written (by simp [hne]) hall,
    walkAll_append (fun s hs => (htrimmed s hs).still) hne, List.append_nil]

theorem Canonical.with_query (hu : u.Canonical) {q : String} (hq : ∀ c ∈ q.toList, keptInQuery true c = true) :
    ({ u with query := some q } : Url).Canonical where
  scheme := hu.scheme
  username := hu.username
  password := hu.password
  host := hu.host
  port := hu.port
  path := hu.path
  query := by
    intro _ heq
    cases heq
    exact hq
  fragment := hu.fragment

theorem Canonical.with_fragment (hu : u.Canonical) {f : String} (hf : ∀ c ∈ f.toList, keptInFragment c = true) :
    ({ u with fragment := some f } : Url).Canonical where
  scheme := hu.scheme
  username := hu.username
  password := hu.password
  host := hu.host
  port := hu.port
  path := hu.path
  query := hu.query
  fragment := by
    intro _ heq
    cases heq
    exact hf

theorem forall_mem_rdropWhile_append {p : Char → Prop} {front back : List Char} (hfront : ∀ c ∈ front, p c)
    (hslash : p '/') (hback : ∀ c ∈ back, p c) : ∀ c ∈ front.rdropWhile (· == '/') ++ '/' :: back, p c :=
  List.forall_mem_append.mpr ⟨fun c hc => hfront c ((List.rdropWhile_prefix _ _).subset hc),
    List.forall_mem_cons.mpr ⟨hslash, hback⟩⟩

/-- Behind a base with a query a path becomes the end of that query. -/
theorem Canonical.below_query (hu : u.Canonical) {q : String} (hquery : u.query = some q)
    (hfragment : u.fragment = none)
    (hpath : ∀ c ∈ (Text.dropLeading '/' path).toList, keptInQuery true c = true) :
    u.below path =
      .ok { u with query := some (Text.dropTrailing '/' q ++ "/" ++ Text.dropLeading '/' path) } := by
  have hkept : ∀ c ∈ (Text.dropTrailing '/' q ++ "/" ++ Text.dropLeading '/' path).toList,
      keptInQuery true c = true := by
    have hmem := forall_mem_rdropWhile_append (hu.query q hquery) (by decide) hpath
    simpa [Text.dropTrailing_eq] using hmem
  have hrender : ∀ q, ({ u with query := some q } : Url).render =
      String.ofList (u.scheme.toList ++ ':' :: u.writeHierarchy ++ '?' :: q.toList) := by
    intro q
    show String.ofList (_ ++ _ ++ u.writeFragment) = _
    rw [writeFragment, hfragment, List.append_nil]
    rfl
  have hbase : ({ u with query := some q } : Url) = u := by rw [← hquery]
  have hdrop := Text.rdropWhile_append (p := (· == '/')) (c := '?') rfl
    (u.scheme.toList ++ ':' :: u.writeHierarchy) q.toList
  refine Eq.trans ?_ (hu.with_query hkept).read_render
  rw [below, ← hbase, hrender, hrender, Text.dropTrailing_eq, Text.dropTrailing_eq, String.toList_ofList,
    hdrop]
  congr 1
  simp [String.ext_iff]

/-- Behind a base with a fragment a path becomes the end of that fragment. -/
theorem Canonical.below_fragment (hu : u.Canonical) {f : String} (hfragment : u.fragment = some f)
    (hpath : ∀ c ∈ (Text.dropLeading '/' path).toList, keptInFragment c = true) :
    u.below path =
      .ok { u with fragment := some (Text.dropTrailing '/' f ++ "/" ++ Text.dropLeading '/' path) } := by
  have hkept : ∀ c ∈ (Text.dropTrailing '/' f ++ "/" ++ Text.dropLeading '/' path).toList,
      keptInFragment c = true := by
    have hmem := forall_mem_rdropWhile_append (hu.fragment f hfragment) (by decide) hpath
    simpa [Text.dropTrailing_eq] using hmem
  have hrender : ∀ f, ({ u with fragment := some f } : Url).render =
      String.ofList (u.scheme.toList ++ ':' :: u.writeHierarchy ++ u.writeQuery ++ '#' :: f.toList) :=
    fun _ => rfl
  have hbase : ({ u with fragment := some f } : Url) = u := by rw [← hfragment]
  have hdrop := Text.rdropWhile_append (p := (· == '/')) (c := '#') rfl
    (u.scheme.toList ++ ':' :: u.writeHierarchy ++ u.writeQuery) f.toList
  refine Eq.trans ?_ (hu.with_fragment hkept).read_render
  rw [below, ← hbase, hrender, hrender, Text.dropTrailing_eq, Text.dropTrailing_eq, String.toList_ofList,
    hdrop]
  congr 1
  simp [String.ext_iff]

end Url

end CatalogClient
