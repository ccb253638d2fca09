import CatalogClient.Proofs.Paging.Shelf
import CatalogClient.Proofs.Resource.Keys
import CatalogClient.Proofs.Url.Query
/-!
The pairs of a call on their way to the service: what stands in the query of its URL is read back as the pairs
of its path and then its own, whatever characters they hold.
-/

namespace CatalogClient

namespace Request

variable {r : Request} {base url : Url}

theorem pairs_of_url (hbase : base.Canonical)
    (hclean : r.isAbsolute = true ∨ base.query = none ∧ base.fragment = none) (hmark : '#' ∉ r.path.toList)
    (h : r.url base = .ok url) : url.pairs = Url.pairsIn r.path.toList ++ r.query := by
  obtain ⟨own, hown, hurl⟩ := except_bind_ok.mp h
  have hread := Config.ok_of_mapError hown
  have hpairs : own.pairs = Url.pairsIn r.path.toList := by
    split at hread
    · exact Url.pairs_of_read hmark hread
    · rename_i habsolute
      obtain ⟨hquery, hfragment⟩ := hclean.resolve_left habsolute
      exact hbase.pairs_below hquery hfragment hmark hread
  cases hurl
  rw [← hpairs]
  split
  · rename_i hnone
    rw [hnone, List.append_nil]
  · exact Url.pairs_withPairs own r.query

end Request

namespace Resource

variable {base : Url} {collection : String} {q : Query} {pairs : List (String × String)}

theorem pairs_of_list (hbase : base.Canonical) (hquery : base.query = none) (hfragment : base.fragment = none)
    (hc : collection ∈ collections) (hq : q.compile = .ok pairs) :
    ∃ r url, list collection q = .ok r ∧ r.url base = .ok url ∧ url.pairs = pairs := by
  obtain ⟨p, -, htext⟩ := exists_plainPath hc
  have hlist : list collection q = .ok ((Request.get collection).withPairs pairs) := by
    rw [list, Query.apply, hq]
    rfl
  have hpath : ((Request.get collection).withPairs pairs).path = p.text := htext.symm
  obtain ⟨url, hurl, -⟩ := Request.url_of_plainPath hbase (.inl hpath)
  have hmark : '#' ∉ p.text.toList := p.notMem_text (by decide) (by decide)
  have hplain : '?' ∉ p.text.toList := p.notMem_text (by decide) (by decide)
  refine ⟨_, url, hlist, hurl, ?_⟩
  rw [Request.pairs_of_url hbase (.inr ⟨hquery, hfragment⟩) (hpath ▸ hmark) hurl, hpath, Url.pairsIn,
    Url.queryIn_of_notMem hplain]
  rfl

end Resource

namespace Client

open Traffic

variable {σ α : Type} {k : Client} {p : Peer σ} {f : Json.Decoder α} {r : Request} {url : Url}
  {pairs : List (String × String)}

/-- Whatever the client has done before and whatever comes of it, a call for a page sends nothing but attempts
with these pairs. -/
def SendsPairs (k : Client) (p : Peer σ) (f : Json.Decoder α) (r : Request)
    (pairs : List (String × String)) : Prop :=
  ∀ date credential peer w w' result, Reaches p k.setup ⟨k.world date credential peer, []⟩ ⟨w, []⟩ →
    (k.page p f r).run w = (result, w') → ∀ i a, w.Notes w' (.sent i a) → a.url.pairs = pairs

theorem sendsPairs_of_url (hurl : r.url k.setup.base = .ok url) (hpairs : url.pairs = pairs) :
    k.SendsPairs p f r pairs := by
  intro date credential peer w w' result hr hpage i a hn
  obtain ⟨outcomes, hperform⟩ := page_performs hpage
  have hidle : w.Idle := (World.Idle.start date k.quota credential peer).of_reaches hr
  obtain ⟨hrecorded, -⟩ := tried_kept.reaches hr (recorded_start _ _ _ _) (by simp)
  obtain ⟨o, ho, r', url', authorization, hgoal, rfl⟩ := World.perform_sent hperform hidle hrecorded hn
  cases List.mem_singleton.mp ho
  have hsame : (k.order r).goal = .call r url := by
    rw [order, Goal.ofRequest, hurl]
  cases hsame.symm.trans hgoal
  exact hpairs

/-- What a service reads in the query of a URL are the pairs of the path and then those of the call, and of a
list the parameters of its search; but the base may not have a query or a fragment. -/
theorem pairs_arrive (hvalid : k.config.validate = .ok ()) (hbase : k.config.base = .ok k.setup.base) :
    (∀ (r : Request) (url : Url),
      (r.isAbsolute = true ∨ k.setup.base.query = none ∧ k.setup.base.fragment = none) →
        '#' ∉ r.path.toList → r.url k.setup.base = .ok url →
          url.pairs = Url.pairsIn r.path.toList ++ r.query) ∧
    (k.setup.base.query = none → k.setup.base.fragment = none →
      ∀ collection ∈ Resource.collections, ∀ (q : Query) pairs, q.compile = .ok pairs →
        ∃ r url, Resource.list collection q = .ok r ∧ r.url k.setup.base = .ok url ∧ url.pairs = pairs ∧
          ∀ (σ α : Type) (p : Peer σ) (f : Json.Decoder α), k.SendsPairs p f r pairs) := by
  obtain ⟨base, hbase', hcanonical⟩ := (Config.valid_of_validate hvalid).base_canonical
  cases hbase.symm.trans hbase'
  refine ⟨fun r url hclean hmark hurl => Request.pairs_of_url hcanonical hclean hmark hurl, ?_⟩
  intro hquery hfragment collection hc q pairs hq
  obtain ⟨r, url, hlist, hurl, hpairs⟩ := Resource.pairs_of_list hcanonical hquery hfragment hc hq
  exact ⟨r, url, hlist, hurl, hpairs, fun _ _ _ _ => sendsPairs_of_url hurl hpairs⟩

end Client

/-- The client for settings with the root of a service as their base. -/
def Client.rooted : Client :=
  { Client.plain with setup := { Setup.plain 3 with
      base := ⟨"https", "", none, some (.domain "pim.example.com"), none, .segments [""], none, none⟩ } }

def Query.ten : Query := (Query.empty.withScope "a&b=é+").withLimit 10

theorem Client.pairs_arrive_rooted :
    Client.rooted.config.validate = .ok () ∧ Client.rooted.config.base = .ok Client.rooted.setup.base ∧
    (∃ url, ((Request.get "families?x=%C3%A9&&y=+%2b \t").withPair "x" "").url Client.rooted.setup.base =
      .ok url ∧ url.pairs = [("x", "é"), ("y", " +"), ("x", "")]) ∧
    ∃ r i a, Resource.list Resource.families Query.ten = .ok r ∧
      Client.rooted.fresh.Notes
        ((Client.rooted.page (.telling fun _ => "") Json.Decode.json r).run Client.rooted.fresh).2 (.sent i a) ∧
      a.url.pairs = [("scope", "a&b=é+"), ("limit", "10")] := by
  have hvalid : Client.rooted.config.validate = .ok () := by decide +kernel
  have hbase : Client.rooted.config.base = .ok Client.rooted.setup.base := by decide +kernel
  obtain ⟨hcall, hlist⟩ := Client.pairs_arrive hvalid hbase
  refine ⟨hvalid, hbase, ?_, ?_⟩
  · have hurl : ((Request.get "families?x=%C3%A9&&y=+%2b \t").withPair "x" "").url
        Client.rooted.setup.base = .ok ⟨"https", "", none, some (.domain "pim.example.com"), none,
          .segments ["families"], some "x=%C3%A9&&y=+%2b&x=", none⟩ := by
      decide +kernel
    refine ⟨_, hurl, ?_⟩
    rw [hcall _ _ (.inr ⟨rfl, rfl⟩) (by decide) hurl]
    decide +kernel
  · obtain ⟨r, url, hr, -, -, hsends⟩ := hlist rfl rfl Resource.families (by decide) Query.ten
      [("scope", "a&b=é+"), ("limit", "10")] (by decide +kernel)
    have hsome : ∃ i a, Client.rooted.fresh.Notes
        ((Client.rooted.page (.telling fun _ => "") Json.Decode.json r).run Client.rooted.fresh).2 (.sent i a) := by
      cases hr
      exact ⟨_, _, _, _, (List.append_nil _).symm, .tail _ (.head _)⟩
    obtain ⟨i, a, hsent⟩ := hsome
    exact ⟨r, i, a, hr, hsent, hsends _ _ _ _ _ _ _ _ _ _ .refl rfl i a hsent⟩

/-- Behind a base with a query the path of a call stands in that query, and there are other pairs than those
of the call. -/
theorem Client.base_takes_pairs :
    let c := Config.make "https://pim.example.com/?tenant=a" "id" "secret"
    let r := (Request.get Resource.families).withPair "limit" "10"
    c.validate = .ok () ∧ '#' ∉ r.path.toList ∧ Url.pairsIn r.path.toList ++ r.query = [("limit", "10")] ∧
      ∃ base url, c.base = .ok base ∧ r.url base = .ok url ∧
        url.pairs = [("tenant", "a/api/rest/v1/families"), ("limit", "10")] := by
  refine ⟨by decide +kernel, by decide, by decide +kernel,
    ⟨"https", "", none, some (.domain "pim.example.com"), none, .segments [""], some "tenant=a", none⟩,
    ⟨"https", "", none, some (.domain "pim.example.com"), none, .segments [""],
      some "tenant=a/api/rest/v1/families&limit=10", none⟩, ?_, ?_, ?_⟩
  all_goals decide +kernel

end CatalogClient
