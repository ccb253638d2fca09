import CatalogClient.Proofs.Paging.Shelf
import CatalogClient.Proofs.Search.Options
/-!
Paging by hand against a service that reads the page and its size in the URL or in the body. A search says
them in the body, and only the query of a request tells where to page on.
-/

namespace CatalogClient

/-- What is said of a page that is wanted: how many items it has, and its number. -/
structure Wish where
  size : Option Nat
  number : Option Nat

/-- A page as a service keeps it: the number it tells, if any, and the items. -/
structure Leaf (α : Type) where
  told : Option Nat
  items : List α

/-- In the URL, or where it is not there, in the body. -/
def Attempt.number? (a : Attempt) (key : String) : Option Nat :=
  (numberIn? a.url.pairs key).or (a.body.number? key)

/-- A service that answers at a URL by what the attempts wish, without links. -/
def Peer.Pages {σ α : Type} (p : Peer σ) (f : Json.Decoder α) (home : Url) (book : Wish → Leaf α) : Prop :=
  ∀ a peer, { a.url with query := home.query } = home → ∃ r count,
    (p.send a peer).1.answer = .ok r ∧ r.isSuccess ∧ r.decode (Envelope.decoder f) =
      let leaf := book ⟨a.number? "limit", a.number? "page"⟩
      .ok ⟨[], leaf.told, count, leaf.items⟩

structure Envelope.Shows {α : Type} (e : Envelope α) (leaf : Leaf α) : Prop where
  links : e.links = []
  told : e.currentPage = leaf.told
  items : e.items = leaf.items

namespace Leaf

variable {α : Type}

/-- The number and the size of the page behind one, by what the query of its request says. -/
def next (leaf : Leaf α) (known : Wish) : Except Fault (Option (Nat × Nat)) :=
  let size := known.size.getD Page.defaultLimit
  let number := (leaf.told.or known.number).getD 1
  if leaf.items.isEmpty ∨ leaf.items.length < size then .ok none
  else if number + 1 < Width.beyond32 then .ok (some (number + 1, size))
  else .error .pageNumber

/-- The items of so many pages, and how paging through them ends. The service sees what is asked for;
where to page on is known from the query. -/
def through (book : Wish → Leaf α) : Nat → Wish → Wish → Except Fault (List α × Ending)
  | 0, _, _ => .ok ([], .enough)
  | m + 1, asked, known =>
    let rest : Except Fault (List α × Ending) :=
      if m = 0 then .ok ([], .enough)
      else match (book asked).next known with
        | .error fault => .error fault
        | .ok none => .ok ([], .last)
        | .ok (some (number, size)) => through book m ⟨some size, some number⟩ ⟨some size, some number⟩
    rest.map (Prod.map ((book asked).items ++ ·) id)

end Leaf

namespace Request

def known (r : Request) : Wish := ⟨r.number? "limit", r.number? "page"⟩

def asked (r : Request) : Wish :=
  ⟨(r.number? "limit").or (r.body.number? "limit"), (r.number? "page").or (r.body.number? "page")⟩

variable {r : Request} {number size : Nat}

theorem known_turned (hnumber : number < Width.beyond32) (hsize : size < Width.beyond32) :
    (r.turned number size).known = ⟨some size, some number⟩ := by
  rw [known, number?_turned_limit hsize, number?_turned_page hnumber]

theorem asked_turned (hnumber : number < Width.beyond32) (hsize : size < Width.beyond32) :
    (r.turned number size).asked = ⟨some size, some number⟩ := by
  rw [asked, number?_turned_limit hsize, number?_turned_page hnumber, Option.some_or, Option.some_or]

end Request

namespace Page

variable {α : Type} {leaf : Leaf α} {page : Page α}

theorem nextRequest_leaf (hlinks : page.links = []) (htold : page.currentPage = leaf.told)
    (hitems : page.items = leaf.items) :
    page.nextRequest =
      (leaf.next page.request.known).map (Option.map fun place => page.request.turned place.1 place.2) := by
  have hlimit : page.request.known.size.getD defaultLimit = page.limit := rfl
  have hnumber : (leaf.told.or page.request.known.number).getD 1 = page.number := by
    rw [← htold]
    rfl
  rw [nextRequest_counted hlinks, Leaf.next, hlimit, hnumber, ← hitems]
  split
  · rfl
  · split <;> rfl

end Page

namespace Leaf

variable {α : Type} {leaf : Leaf α} {known : Wish} {book : Wish → Leaf α} {number size : Nat}

theorem next_lt (hknown : ∀ n ∈ known.size, n < Width.beyond32)
    (h : leaf.next known = .ok (some (number, size))) :
    number < Width.beyond32 ∧ size < Width.beyond32 := by
  rw [next] at h
  split at h
  · cases h
  · split at h
    · rename_i hnumber
      cases h
      refine ⟨hnumber, ?_⟩
      cases hsize : known.size with
      | none => decide
      | some n => exact hknown n hsize
    · cases h

theorem through_congr {m : Nat} {asked known' : Wish}
    (h : (book asked).next known = (book asked).next known') :
    through book m asked known = through book m asked known' := by
  cases m with
  | zero => rfl
  | succ m => rw [through, through, h]

/-- The query need not say the page and its size where the page ends the list anyway, or where the size is
the usual one, and the number is told or that of the first page. -/
theorem next_unsaid {number : Option Nat} (h : leaf.items = [] ∨ leaf.items.length < min size Page.defaultLimit ∨
      size = Page.defaultLimit ∧ (leaf.told.isSome ∨ number.getD 1 = 1)) :
    leaf.next ⟨some size, number⟩ = leaf.next ⟨none, none⟩ := by
  simp only [next, Option.getD_some, Option.getD_none, Option.or_none]
  rcases h with hempty | hshort | ⟨rfl, hnumber⟩
  · rw [if_pos (.inl (by rw [hempty]; rfl)), if_pos (.inl (by rw [hempty]; rfl))]
  · rw [if_pos (.inr (by omega)), if_pos (.inr (by omega))]
  · have hsame : (leaf.told.or number).getD 1 = leaf.told.getD 1 := by
      cases htold : leaf.told with
      | some told => rfl
      | none =>
        rw [htold] at hnumber
        rcases hnumber with htold | hnumber
        · cases htold
        · exact hnumber
    rw [hsame]

end Leaf

namespace Client

open Traffic

variable {σ α : Type} {k : Client} {p : Peer σ} {f : Json.Decoder α} {r : Request} {home : Url}
  {book : Wish → Leaf α} {w w' : World σ} {date : UtcTime} {credential : Option Credential} {peer : σ}

theorem tells_of_pages (hp : p.Pages f home book)
    (hpath : ({ r with query := [] } : Request).url k.setup.base = .ok home)
    (hown : ∀ pair ∈ home.pairs, pair.1 ≠ "page" ∧ pair.1 ≠ "limit") :
    ∃ url, r.url k.setup.base = .ok url ∧ p.Tells k.setup f r url (·.Shows (book r.asked)) := by
  obtain ⟨url, hurl, hpairs, hhome⟩ := Request.url_of_home hpath
  refine ⟨url, hurl, fun authorization peer => ?_⟩
  obtain ⟨a, count, ha, hok, hdecode⟩ := hp (r.attempt url authorization k.setup.timeout) peer hhome
  have hnumber : ∀ key, (∀ pair ∈ home.pairs, pair.1 ≠ key) →
      (r.attempt url authorization k.setup.timeout).number? key =
        (r.number? key).or (r.body.number? key) := by
    intro key hkey
    change (numberIn? url.pairs key).or _ = _
    rw [hpairs, numberIn?_append hkey]
    rfl
  rw [hnumber "limit" fun pair hpair => (hown pair hpair).2,
    hnumber "page" fun pair hpair => (hown pair hpair).1] at hdecode
  exact ⟨a, _, ha, hok, hdecode, rfl, rfl, rfl⟩

theorem pages_through {m : Nat} {result : Except Fault (List (Page α) × Ending)}
    (hp : p.Pages f home book) (hpath : ({ r with query := [] } : Request).url k.setup.base = .ok home)
    (hown : ∀ pair ∈ home.pairs, pair.1 ≠ "page" ∧ pair.1 ≠ "limit")
    (hr : Reaches p k.setup ⟨k.world date credential peer, []⟩ ⟨w, []⟩) (hissues : p.Issues w.date)
    (h : k.pages p f m r w = (result, w')) (hunhurried : w.Unhurried k.quota w') :
    result.map (Prod.map Page.handed id) = Leaf.through book m r.asked r.known := by
  induction m generalizing r w result with
  | zero =>
    cases h
    rfl
  | succ m ih =>
    have hidle : w.Idle := (World.Idle.start date k.quota credential peer).of_reaches hr
    rcases hpage : (k.page p f r).run w with ⟨first, w₁⟩
    have hreach := page_reaches hidle hpage
    have hrest := pages_succ_reaches (fun hw h => pages_reaches hw h) (hidle.of_reaches hreach) hpage h
    obtain ⟨url, hurl, htells⟩ := tells_of_pages hp hpath hown
    obtain ⟨-, -, e, hshows, rfl⟩ := page_told hr hurl htells hissues hpage (hunhurried.before hrest)
    rw [pages_succ_page hpage] at h
    rcases hafter : k.pagesAfter p f m (Page.ofEnvelope e r) w₁ with ⟨rest, w₂⟩
    rw [hafter] at h
    cases h
    have hnext : (Page.ofEnvelope e r).nextRequest =
        ((book r.asked).next r.known).map (Option.map fun place => r.turned place.1 place.2) :=
      Page.nextRequest_leaf hshows.links hshows.told hshows.items
    have hhanded : (rest.map (Prod.map (Page.ofEnvelope e r :: ·) id)).map (Prod.map Page.handed id) =
        (rest.map (Prod.map Page.handed id)).map (Prod.map ((book r.asked).items ++ ·) id) := by
      rw [← hshows.items]
      cases rest <;> rfl
    refine hhanded.trans ?_
    rw [Leaf.through]
    refine congrArg _ ?_
    cases m with
    | zero =>
      cases hafter
      rfl
    | succ m =>
      rw [if_neg (Nat.succ_ne_zero m)]
      rcases hleaf : (book r.asked).next r.known with fault | none | ⟨number, size⟩
      · rw [hleaf] at hnext
        rw [pagesAfter_fault hnext] at hafter
        cases hafter
        rfl
      · rw [hleaf] at hnext
        rw [pagesAfter_eq hnext] at hafter
        cases hafter
        rfl
      · -- From the second page on the query says both, so what is asked for is what is known.
        rw [hleaf] at hnext
        rw [pagesAfter_eq hnext] at hafter
        obtain ⟨hnumber, hsize⟩ := Leaf.next_lt (fun n hn => numberIn?_lt hn) hleaf
        have hlater := ih (r := r.turned number size) hpath (hr.trans hreach)
          (page_date hpage ▸ hissues) hafter (hunhurried.after hreach)
        rwa [Request.asked_turned hnumber hsize, Request.known_turned hnumber hsize] at hlater

/-- What paging by hand comes to, for a client that gets tokens and none of whose calls runs out of time. -/
inductive Paged (k : Client) (p : Peer σ) (f : Json.Decoder α) (m : Nat) (r : Request) :
    Except Fault (List α × Ending) → Prop
  | intro {date : UtcTime} {credential : Option Credential} {peer : σ} {w w' : World σ}
    {result : Except Fault (List (Page α) × Ending)}
    (reached : Reaches p k.setup ⟨k.world date credential peer, []⟩ ⟨w, []⟩) (issues : p.Issues w.date)
    (run : k.pages p f m r w = (result, w')) (unhurried : w.Unhurried k.quota w') :
    Paged k p f m r (result.map (Prod.map Page.handed id))

theorem Paged.through {m : Nat} {result : Except Fault (List α × Ending)} (h : k.Paged p f m r result)
    (hp : p.Pages f home book) (hpath : ({ r with query := [] } : Request).url k.setup.base = .ok home)
    (hown : ∀ pair ∈ home.pairs, pair.1 ≠ "page" ∧ pair.1 ≠ "limit") :
    result = Leaf.through book m r.asked r.known := by
  obtain ⟨reached, issues, run, unhurried⟩ := h
  exact pages_through hp hpath hown reached issues run unhurried

/-- A list says its page and limit in the query, a search in the body, where the service finds them but the
paging does not: behind its first page a search goes on as for a query that says neither. -/
theorem search_pages_as_list {q : Query} {c : Criteria} {size : Nat} {listed searched : Url}
    (hvalid : q.checked = .ok c) (hnarrow : q.Narrow) (hlimit : q.limit = some size)
    (hlisted : (Request.get Resource.productsByUuid).url k.setup.base = .ok listed)
    (hsearched : (Request.post (Resource.productsByUuid ++ "/search")).url k.setup.base = .ok searched)
    (hown : ∀ pair ∈ listed.pairs ++ searched.pairs, pair.1 ≠ "page" ∧ pair.1 ≠ "limit")
    (hlist : p.Pages f listed book) (hsearch : p.Pages f searched book) :
    ∃ r s, Resource.list Resource.productsByUuid q = .ok r ∧ Resource.search q = .ok s ∧
      ∀ m byList bySearch, k.Paged p f m r byList → k.Paged p f m s bySearch →
        let leaf := book ⟨some size, q.page⟩
        byList = Leaf.through book m ⟨some size, q.page⟩ ⟨some size, q.page⟩ ∧
          bySearch = Leaf.through book m ⟨some size, q.page⟩ ⟨none, none⟩ ∧
          (leaf.items = [] ∨ leaf.items.length < min size Page.defaultLimit ∨
              size = Page.defaultLimit ∧ (leaf.told.isSome ∨ q.page.getD 1 = 1) →
            bySearch = byList) := by
  obtain ⟨pairs, hpairs⟩ : ∃ pairs, q.compile = .ok pairs :=
    ⟨_, except_bind_ok.mpr ⟨c, hvalid, rfl⟩⟩
  obtain ⟨body, hbody⟩ : ∃ body, q.compileBody = .ok body :=
    ⟨_, except_bind_ok.mpr ⟨c, hvalid, rfl⟩⟩
  refine ⟨(Request.get Resource.productsByUuid).withPairs pairs,
    ((Request.post (Resource.productsByUuid ++ "/search")).withJson body).withRetryWrites true,
    except_bind_ok.mpr ⟨pairs, hpairs, rfl⟩, except_bind_ok.mpr ⟨body, hbody, rfl⟩, ?_⟩
  intro m byList bySearch hbyList hbySearch
  have hsize := (Query.numberIn?_compile q.filter_options_limit (by decide) hnarrow.limit hpairs).trans hlimit
  have hpage := Query.numberIn?_compile q.filter_options_page (by decide) hnarrow.page hpairs
  have hknown : ((Request.get Resource.productsByUuid).withPairs pairs).known = ⟨some size, q.page⟩ := by
    rw [← hsize, ← hpage]
    rfl
  have hasked : ((Request.get Resource.productsByUuid).withPairs pairs).asked = ⟨some size, q.page⟩ := by
    rw [← hknown]
    exact congrArg₂ Wish.mk Option.or_none Option.or_none
  have hbodyAsked : (((Request.post (Resource.productsByUuid ++ "/search")).withJson body).withRetryWrites
      true).asked = ⟨some size, q.page⟩ := by
    rw [← Query.number?_compileBody q.filter_options_page (by decide) hnarrow.page hbody, ← hlimit,
      ← Query.number?_compileBody q.filter_options_limit (by decide) hnarrow.limit hbody]
    rfl
  have hlistedThrough := hbyList.through hlist hlisted fun pair hpair =>
    hown pair (List.mem_append_left _ hpair)
  have hsearchedThrough := hbySearch.through hsearch hsearched fun pair hpair =>
    hown pair (List.mem_append_right _ hpair)
  rw [hasked, hknown] at hlistedThrough
  rw [hbodyAsked] at hsearchedThrough
  refine ⟨hlistedThrough, hsearchedThrough, fun hsame => ?_⟩
  rw [hlistedThrough, hsearchedThrough]
  exact Leaf.through_congr (Leaf.next_unsaid hsame).symm

end Client

def Leaf.ofItems {α : Type} (items : List α) (wish : Wish) : Leaf α :=
  let size := wish.size.getD Page.defaultLimit
  ⟨none, (Client.itemsFrom items size (wish.number.getD 1)).take size⟩

def Leaf.text (leaf : Leaf Json) : String :=
  (Envelope.toJson ⟨[], leaf.told, none, leaf.items⟩).render

def Peer.paging (book : Wish → Leaf Json) : Peer Unit :=
  .telling fun a => (book ⟨a.number? "limit", a.number? "page"⟩).text

/-- Of two items, one on a page, the search brings the first: behind a page with one item it expects none,
as it takes the page for one of a hundred. -/
theorem Client.search_loses_item : ∃ r s,
    Resource.list Resource.productsByUuid (Query.empty.withLimit 1) = .ok r ∧
      Resource.search (Query.empty.withLimit 1) = .ok s ∧
      (Client.plain.pages (.paging (.ofItems [.ofNat 1, .ofNat 2])) Json.Decode.json 3 r
        Client.plain.fresh).1.toOption.map (fun result => Page.handed result.1) =
          some [.ofNat 1, .ofNat 2] ∧
      (Client.plain.pages (.paging (.ofItems [.ofNat 1, .ofNat 2])) Json.Decode.json 3 s
        Client.plain.fresh).1.toOption.map (fun result => Page.handed result.1) = some [.ofNat 1] := by
  refine ⟨_, _, rfl, rfl, ?_, ?_⟩
  · decide +kernel
  · decide +kernel

theorem Leaf.ofItems_two {α : Type} (a b : α) (wish : Wish) :
    Leaf.ofItems [a, b] wish ∈ [⟨none, []⟩, ⟨none, [a]⟩, ⟨none, [b]⟩, ⟨none, [a, b]⟩] := by
  simp only [ofItems, Client.itemsFrom]
  generalize wish.size.getD Page.defaultLimit = size
  generalize (wish.number.getD 1 - 1) * size = front
  rcases front with _ | _ | front <;> rcases size with _ | _ | size <;> simp

theorem Peer.paging_two (home : Url) :
    (Peer.paging (.ofItems [.ofNat 1, .ofNat 2])).Pages Json.Decode.json home
      (.ofItems [.ofNat 1, .ofNat 2]) := by
  intro a peer _
  refine ⟨_, none, rfl, rfl, ?_⟩
  have hread : ∀ leaf ∈ [⟨none, []⟩, ⟨none, [.ofNat 1]⟩, ⟨none, [.ofNat 2]⟩, ⟨none, [.ofNat 1, .ofNat 2]⟩],
      (⟨200, [], Text.Utf8.encode (Leaf.text leaf), .zero, 1⟩ : Response).decode
        (Envelope.decoder Json.Decode.json) = .ok ⟨[], leaf.told, none, leaf.items⟩ := by
    decide +kernel
  exact hread _ (Leaf.ofItems_two _ _ _)

theorem Client.paged_plain {p : Peer Unit} {m : Nat} {r : Request} (hissues : p.Issues (.ofNanos 0))
    (hquiet : ((Client.plain.pages p Json.Decode.json m r Client.plain.fresh).2.journal.all fun e =>
      match e.event with
        | .expired _ => false
        | _ => true) = true)
    (hclock : (Client.plain.pages p Json.Decode.json m r Client.plain.fresh).2.now.nanos +
      Client.plain.quota.period.nanos < Instant.horizon) :
    Client.plain.Paged p Json.Decode.json m r
      ((Client.plain.pages p Json.Decode.json m r Client.plain.fresh).1.map
        (Prod.map Page.handed id)) :=
  .intro .refl hissues rfl (.of_quiet hquiet hclock)

def Url.productsByUuid (below : List String) : Url :=
  ⟨"https", "", none, some (.domain "pim.example.com"), none,
    .segments (["api", "rest", "v1", "products-uuid"] ++ below), none, none⟩

theorem Query.narrow_hundred : (Query.empty.withLimit 100).Narrow := by
  refine ⟨?_, ?_⟩
  · intro n hn
    cases hn
  · intro n hn
    cases hn
    decide

theorem Client.search_pages_hundred : ∃ r s,
    Resource.list Resource.productsByUuid (Query.empty.withLimit 100) = .ok r ∧
      Resource.search (Query.empty.withLimit 100) = .ok s ∧
      (Client.plain.pages (.paging (.ofItems [.ofNat 1, .ofNat 2])) Json.Decode.json 2 s
          Client.plain.fresh).1.map (Prod.map Page.handed id) =
        (Client.plain.pages (.paging (.ofItems [.ofNat 1, .ofNat 2])) Json.Decode.json 2 r
          Client.plain.fresh).1.map (Prod.map Page.handed id) := by
  have hlisted : (Request.get Resource.productsByUuid).url Client.plain.setup.base =
      .ok (.productsByUuid []) := rfl
  have hsearched : (Request.post (Resource.productsByUuid ++ "/search")).url Client.plain.setup.base =
      .ok (.productsByUuid ["search"]) := rfl
  have hvalid : (Query.empty.withLimit 100).checked = .ok .empty := rfl
  obtain ⟨r, s, hr, hs, hpages⟩ :=
    Client.search_pages_as_list hvalid Query.narrow_hundred rfl hlisted hsearched (by decide)
      (Peer.paging_two _) (Peer.paging_two _)
  have hlist : Resource.list Resource.productsByUuid (Query.empty.withLimit 100) =
      .ok ((Request.get Resource.productsByUuid).withPairs [("limit", "100")]) := rfl
  have hsearch : Resource.search (Query.empty.withLimit 100) =
      .ok (((Request.post (Resource.productsByUuid ++ "/search")).withJson
        (.object [("limit", .ofNat 100)])).withRetryWrites true) := rfl
  refine ⟨r, s, hr, hs, ?_⟩
  cases hlist.symm.trans hr
  cases hsearch.symm.trans hs
  have hissues : (Peer.paging (.ofItems [.ofNat 1, .ofNat 2])).Issues (.ofNanos 0) := Peer.telling_issues _
  exact (hpages 2 _ _ (Client.paged_plain hissues (by decide +kernel) (by decide +kernel))
    (Client.paged_plain hissues (by decide +kernel) (by decide +kernel))).2.2 (.inr (.inl (by decide)))

end CatalogClient
