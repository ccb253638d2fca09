import CatalogClient.Proofs.Client.Unhindered
import CatalogClient.Proofs.Paging.ByHand
import CatalogClient.Proofs.Paging.Numbers
/-!
Lists without links, whose pages are counted: paging by hand, and a walk, bring all the items from a page
on, each once and in their order.
-/

namespace CatalogClient

namespace Page

variable {α : Type} {page : Page α}

theorem nextRequest_counted (hlinks : page.links = []) :
    page.nextRequest =
      if page.items.isEmpty ∨ page.items.length < page.limit then .ok none
      else if page.number + 1 < Width.beyond32 then
        .ok (some (page.request.turned (page.number + 1) page.limit))
      else .error .pageNumber := by
  rw [nextRequest, nextCursor, if_neg (by simpa using hlinks)]
  split
  · rfl
  · split <;> rfl

theorem nextRequest_short (hlinks : page.links = []) (hshort : page.items.length < page.limit) :
    page.nextRequest = .ok none := by
  rw [nextRequest_counted hlinks, if_pos (.inr hshort)]

theorem nextRequest_full (hlinks : page.links = []) (hitems : page.items ≠ [])
    (hfull : page.limit ≤ page.items.length) (hnumber : page.number + 1 < Width.beyond32) :
    page.nextRequest = .ok (some (page.request.turned (page.number + 1) page.limit)) := by
  have hpart : ¬ (page.items.isEmpty ∨ page.items.length < page.limit) := by
    rintro (hempty | hshort)
    · exact hitems (List.isEmpty_iff.mp hempty)
    · exact Nat.not_lt_of_le hfull hshort
  rw [nextRequest_counted hlinks, if_neg hpart, if_pos hnumber]

end Page

namespace Client

open Traffic

variable {σ α : Type} {k : Client} {p : Peer σ} {f : Json.Decoder α} {r : Request} {w w₁ w' : World σ}

theorem page_apply : (k.page p f r).run w = Effect.outcomeMap
    (fun result => result.bind fun a => (a.decode (Envelope.decoder f)).map (Page.ofEnvelope · r))
      ((k.execute p r).run w) := by
  rw [page, fetch, bind_assoc, ExceptT.run_bind, Effect.bind_apply]
  rcases (k.execute p r).run w with ⟨fault | ⟨failure | a⟩, w₁⟩
  · rfl
  · rfl
  · dsimp only
    rw [ExceptT.run_bind]
    change (pure (a.decode (Envelope.decoder f)) >>= _ : Effect σ _) w₁ = _
    rw [pure_bind]
    simp only [Effect.outcomeMap, Except.map, Except.bind]
    cases a.decode (Envelope.decoder f) <;> rfl

theorem page_performs {result : Except Fault (Except Failure (Page α))}
    (h : (k.page p f r).run w = (result, w')) :
    ∃ outcomes, w.perform p k.setup 1 [k.order r] = (w', outcomes) := by
  rw [page_apply] at h
  rcases hexecute : (k.execute p r).run w with ⟨answer, w₁⟩
  rw [hexecute] at h
  cases h
  exact execute_performs hexecute

theorem page_reaches (hw : w.Idle) {result : Except Fault (Except Failure (Page α))}
    (h : (k.page p f r).run w = (result, w')) : Reaches p k.setup ⟨w, []⟩ ⟨w', []⟩ := by
  obtain ⟨outcomes, hperform⟩ := page_performs h
  exact World.perform_reaches hperform hw

theorem page_date {result : Except Fault (Except Failure (Page α))}
    (h : (k.page p f r).run w = (result, w')) : w'.date = w.date := by
  obtain ⟨outcomes, hperform⟩ := page_performs h
  exact World.perform_date hperform

theorem pagesAfter_fault {m : Nat} {previous : Page α} {fault : Fault}
    (h : previous.nextRequest = .error fault) :
    k.pagesAfter p f (m + 1) previous w = (.error fault, w) := by
  rw [pagesAfter, Effect.bind_apply, pageAfter, Call.lift_bind, Effect.bind_apply, h]
  rfl

theorem pagesAfter_cases {m : Nat} {previous : Page α} {result : Except Fault (List (Page α) × Ending)}
    (h : k.pagesAfter p f m previous w = (result, w')) :
    w' = w ∨ ∃ r, previous.nextRequest = .ok (some r) ∧ k.pages p f m r w = (result, w') := by
  cases hnext : previous.nextRequest with
  | ok next =>
    rw [pagesAfter_eq hnext] at h
    cases next with
    | none =>
      rw [pagesOn] at h
      split at h <;> cases h <;> exact .inl rfl
    | some r => exact .inr ⟨r, rfl, h⟩
  | error fault =>
    left
    cases m with
    | zero =>
      cases h
      rfl
    | succ m =>
      rw [pagesAfter_fault hnext] at h
      cases h
      rfl

theorem pages_succ_reaches {m : Nat}
    (hrest : ∀ {r : Request} {w : World σ} {result : Except Fault (List (Page α) × Ending)}, w.Idle →
      k.pages p f m r w = (result, w') → Reaches p k.setup ⟨w, []⟩ ⟨w', []⟩)
    (hw : w₁.Idle) {first : Except Fault (Except Failure (Page α))}
    {result : Except Fault (List (Page α) × Ending)} (hpage : (k.page p f r).run w = (first, w₁))
    (h : k.pages p f (m + 1) r w = (result, w')) : Reaches p k.setup ⟨w₁, []⟩ ⟨w', []⟩ := by
  rcases first with fault | failure | page
  · rw [pages_succ_fault hpage] at h
    cases h
    exact .refl
  · rw [pages_succ_failed hpage] at h
    cases h
    exact .refl
  · rw [pages_succ_page hpage] at h
    rcases hafter : k.pagesAfter p f m page w₁ with ⟨rest, w₂⟩
    rw [hafter] at h
    cases h
    rcases pagesAfter_cases hafter with rfl | ⟨r', -, hpages⟩
    · exact .refl
    · exact hrest hw hpages

theorem pages_reaches {m : Nat} (hw : w.Idle) {result : Except Fault (List (Page α) × Ending)}
    (h : k.pages p f m r w = (result, w')) : Reaches p k.setup ⟨w, []⟩ ⟨w', []⟩ := by
  induction m generalizing r w result with
  | zero =>
    cases h
    exact .refl
  | succ m ih =>
    rcases hpage : (k.page p f r).run w with ⟨first, w₁⟩
    have hfirst := page_reaches hw hpage
    exact hfirst.trans (pages_succ_reaches (fun hw h => ih hw h) (hw.of_reaches hfirst) hpage h)

/-- From one state to another the client makes calls for these requests, one after the other. -/
inductive Executes (k : Client) (p : Peer σ) : List Request → World σ → World σ → Prop
  | nil (w : World σ) : Executes k p [] w w
  | cons {r : Request} {rs : List Request} {w w₁ w' : World σ} {answer : Except Failure Response}
    (first : (k.execute p r).run w = (.ok answer, w₁)) (rest : Executes k p rs w₁ w') :
    Executes k p (r :: rs) w w'

end Client

/-- Every attempt of the request is answered with a page of a kind. -/
def Peer.Tells {σ α : Type} (p : Peer σ) (c : Setup) (f : Json.Decoder α) (r : Request) (url : Url)
    (kind : Envelope α → Prop) : Prop :=
  ∀ authorization peer, ∃ a e, (p.send (r.attempt url authorization c.timeout) peer).1.answer = .ok a ∧
    a.isSuccess ∧ a.decode (Envelope.decoder f) = .ok e ∧ kind e

/-- A page with these items and no links, and with its number or none. -/
structure Envelope.Bears {α : Type} (e : Envelope α) (number : Nat) (items : List α) : Prop where
  links : e.links = []
  told : e.currentPage = none ∨ e.currentPage = some number
  items : e.items = items

namespace Client

open Traffic

variable {σ α : Type} {k : Client} {p : Peer σ} {f : Json.Decoder α} {r : Request} {w w₁ w' : World σ}
  {date : UtcTime} {credential : Option Credential} {peer : σ}

theorem page_told {url : Url} {kind : Envelope α → Prop}
    {result : Except Fault (Except Failure (Page α))}
    (hr : Reaches p k.setup ⟨k.world date credential peer, []⟩ ⟨w, []⟩)
    (hurl : r.url k.setup.base = .ok url) (hp : p.Tells k.setup f r url kind)
    (hissues : p.Issues w.date) (h : (k.page p f r).run w = (result, w'))
    (hunhurried : w.Unhurried k.quota w') :
    w'.tasks = w.tasks + 1 ∧ (∃ answer, (k.execute p r).run w = (.ok answer, w')) ∧
      ∃ e, kind e ∧ result = .ok (.ok (Page.ofEnvelope e r)) := by
  have hserves : p.Serves k.setup r url := by
    intro authorization peer'
    obtain ⟨a, e, ha, hok, -⟩ := hp authorization peer'
    exact ⟨a, ha, hok⟩
  rw [page_apply] at h
  rcases hexecute : (k.execute p r).run w with ⟨answer, w₂⟩
  rw [hexecute] at h
  cases h
  obtain ⟨hcount, authorization, peer', b, elapsed, n, rfl, hb⟩ :=
    execute_served hr hurl hserves hissues hexecute hunhurried
  obtain ⟨a, e, ha, -, hdecode, hkind⟩ := hp authorization peer'
  cases ha.symm.trans hb
  have hstamped : (b.stamped elapsed n).decode (Envelope.decoder f) = .ok e := hdecode
  exact ⟨hcount, ⟨_, rfl⟩, e, hkind, by simp only [Except.map, Except.bind, hstamped]⟩

/-- The items of a list from a page on. -/
def itemsFrom (items : List α) (size number : Nat) : List α := items.drop ((number - 1) * size)

/-- A list whose pages the service hands out to the requests of a family, the request for a page leading to
that for the next. -/
structure Shelved (k : Client) (p : Peer σ) (f : Json.Decoder α) (items : List α) (size first : Nat)
    (req : Nat → Request) : Prop where
  positive : 1 ≤ first ∧ 1 ≤ size
  tells : ∀ q, first ≤ q → q < Width.beyond32 → ∃ url, (req q).url k.setup.base = .ok url ∧
    p.Tells k.setup f (req q) url (·.Bears q ((itemsFrom items size q).take size))
  limit : ∀ q, first ≤ q → q < Width.beyond32 → (req q).number? "limit" = some size
  number : ∀ q, first ≤ q → q < Width.beyond32 → ((req q).number? "page").getD 1 = q
  next : ∀ q, first ≤ q → (req q).turned (q + 1) size = req (q + 1)

section Shelved

variable {items : List α} {size first q m : Nat} {req : Nat → Request}

/-- The page with a number, as the service hands it out. -/
structure Handed (items : List α) (size number : Nat) (r : Request) (page : Page α) : Prop where
  links : page.links = []
  items : page.items = (itemsFrom items size number).take size
  request : page.request = r
  limit : page.limit = size
  number : page.number = number

theorem Shelved.page (hs : k.Shelved p f items size first req)
    {result : Except Fault (Except Failure (Page α))}
    (hr : Reaches p k.setup ⟨k.world date credential peer, []⟩ ⟨w, []⟩) (hissues : p.Issues w.date)
    (hq : first ≤ q) (hbound : q < Width.beyond32) (h : (k.page p f (req q)).run w = (result, w'))
    (hunhurried : w.Unhurried k.quota w') :
    w'.tasks = w.tasks + 1 ∧ (∃ answer, (k.execute p (req q)).run w = (.ok answer, w')) ∧
      ∃ page, result = .ok (.ok page) ∧ Handed items size q (req q) page := by
  obtain ⟨url, hurl, htells⟩ := hs.tells q hq hbound
  obtain ⟨hcount, hexecute, e, hbears, rfl⟩ := page_told hr hurl htells hissues h hunhurried
  refine ⟨hcount, hexecute, _, rfl, hbears.links, hbears.items, rfl, ?_, ?_⟩
  · change ((req q).number? "limit").getD Page.defaultLimit = size
    rw [hs.limit q hq hbound]
    rfl
  · change (e.currentPage.or ((req q).number? "page")).getD 1 = q
    rcases hbears.told with htold | htold
    · rw [htold, Option.none_or, hs.number q hq hbound]
    · rw [htold]
      rfl

theorem Handed.last {page : Page α} {r : Request} (h : Handed items size q r page)
    (hshort : (itemsFrom items size q).length < size) :
    page.nextRequest = .ok none ∧ ¬ page.AtLimit := by
  have hlength : page.items.length < page.limit := by
    rw [h.limit, h.items, List.length_take]
    omega
  exact ⟨Page.nextRequest_short h.links hlength,
    fun hlimit => Nat.not_le_of_lt hlength hlimit.full⟩

theorem Handed.next {page : Page α} {r : Request} (h : Handed items size q r page) (hsize : 1 ≤ size)
    (hfull : size ≤ (itemsFrom items size q).length) (hbound : q + 1 < Width.beyond32) :
    page.nextRequest = .ok (some (r.turned (q + 1) size)) ∧ ¬ page.AtLimit := by
  have hlength : page.items.length = size := by
    rw [h.items, List.length_take]
    omega
  have hitems : page.items ≠ [] := by
    intro hnil
    rw [hnil] at hlength
    simp only [List.length_nil] at hlength
    omega
  refine ⟨?_, fun hlimit => ?_⟩
  · have hnext := Page.nextRequest_full h.links hitems (by rw [hlength, h.limit])
      (by rw [h.number]; exact hbound)
    rwa [h.number, h.limit, h.request] at hnext
  · have hnumber := hlimit.number
    rw [h.number] at hnumber
    omega

theorem itemsFrom_succ (items : List α) (size : Nat) (hq : 1 ≤ q) :
    itemsFrom items size (q + 1) = (itemsFrom items size q).drop size := by
  obtain ⟨n, rfl⟩ : ∃ n, q = n + 1 := ⟨q - 1, by omega⟩
  simp only [itemsFrom, List.drop_drop, Nat.add_sub_cancel, Nat.succ_mul]

/-- The number of pages from one on: the last is the first that is not full. -/
def pagesFrom (items : List α) (size number : Nat) : Nat :=
  (itemsFrom items size number).length / size + 1

theorem pagesFrom_pos (items : List α) (size number : Nat) : 1 ≤ pagesFrom items size number :=
  Nat.succ_pos _

theorem pagesFrom_short (h : (itemsFrom items size q).length < size) : pagesFrom items size q = 1 := by
  rw [pagesFrom, Nat.div_eq_of_lt h]

theorem pagesFrom_full (hq : 1 ≤ q) (hsize : 1 ≤ size) (h : size ≤ (itemsFrom items size q).length) :
    pagesFrom items size q = pagesFrom items size (q + 1) + 1 := by
  rw [pagesFrom, pagesFrom, itemsFrom_succ items size hq, List.length_drop,
    Nat.div_eq_sub_div hsize h]

/-- Paging by hand from a page on, as far as is wanted. -/
theorem Shelved.pages (hs : k.Shelved p f items size first req)
    {result : Except Fault (List (Page α) × Ending)}
    (hr : Reaches p k.setup ⟨k.world date credential peer, []⟩ ⟨w, []⟩) (hissues : p.Issues w.date)
    (hq : first ≤ q) (hbound : q + pagesFrom items size q ≤ Width.beyond32)
    (h : k.pages p f m (req q) w = (result, w')) (hunhurried : w.Unhurried k.quota w') :
    ∃ pages, result = .ok (pages, if pagesFrom items size q < m then .last else .enough) ∧
      pages.length = min m (pagesFrom items size q) ∧
      Page.handed pages = (itemsFrom items size q).take (m * size) ∧
      (∀ page ∈ pages, ¬ page.AtLimit) ∧
      k.Executes p ((List.range' q (min m (pagesFrom items size q))).map req) w w' ∧
      w'.tasks = w.tasks + min m (pagesFrom items size q) := by
  induction m generalizing q w result with
  | zero =>
    cases h
    exact ⟨[], by simp, by simp, by simp, by simp, by simpa using .nil w', by simp⟩
  | succ m ih =>
    obtain ⟨hfirst, hsize⟩ := hs.positive
    have hidle : w.Idle := (World.Idle.start date k.quota credential peer).of_reaches hr
    have hone := pagesFrom_pos items size q
    rcases hpage : (k.page p f (req q)).run w with ⟨answer, w₁⟩
    have hreach := page_reaches hidle hpage
    have hrest := pages_succ_reaches (fun hw h => pages_reaches hw h) (hidle.of_reaches hreach) hpage h
    obtain ⟨hcount, ⟨response, hexecute⟩, page, rfl, hhanded⟩ :=
      hs.page hr hissues hq (by omega) hpage (hunhurried.before hrest)
    rw [pages_succ_page hpage] at h
    by_cases hshort : (itemsFrom items size q).length < size
    · obtain ⟨hnext, hlimit⟩ := hhanded.last hshort
      obtain ⟨rfl, rfl⟩ : result = .ok ([page], if m = 0 then .enough else .last) ∧ w' = w₁ := by
        rw [pagesAfter_eq hnext, pagesOn] at h
        split at h
        · rename_i hm
          cases h
          exact ⟨by rw [if_pos hm]; rfl, rfl⟩
        · rename_i hm
          cases h
          exact ⟨by rw [if_neg hm]; rfl, rfl⟩
      rw [pagesFrom_short hshort, Nat.min_eq_right (Nat.le_add_left 1 m)]
      refine ⟨[page], ?_, rfl, ?_, by simpa using hlimit, .cons hexecute (.nil _), hcount⟩
      · cases m <;> simp
      · have hall : (itemsFrom items size q).length ≤ (m + 1) * size := by
          rw [Nat.succ_mul]
          omega
        rw [Page.handed_cons, Page.handed_nil, List.append_nil, hhanded.items,
          List.take_of_length_le (Nat.le_of_lt hshort), List.take_of_length_le hall]
    · have hfull := Nat.le_of_not_lt hshort
      have hmore := pagesFrom_full (Nat.le_trans hfirst hq) hsize hfull
      have hleft := pagesFrom_pos items size (q + 1)
      obtain ⟨hnext, hlimit⟩ := hhanded.next hsize hfull (by omega)
      rw [hs.next q hq] at hnext
      rw [pagesAfter_eq hnext, pagesOn] at h
      rcases hpages : k.pages p f m (req (q + 1)) w₁ with ⟨later, w₂⟩
      rw [hpages] at h
      cases h
      obtain ⟨pages, rfl, hlength, hitems, hlimits, hexecutes, htasks⟩ :=
        ih (hr.trans hreach) (page_date hpage ▸ hissues) (by omega) (by omega) hpages
          (hunhurried.after hreach)
      rw [hmore, Nat.succ_min_succ]
      refine ⟨page :: pages, ?_, by rw [List.length_cons, hlength], ?_, ?_, ?_, ?_⟩
      · simp [Except.map]
      · rw [Page.handed_cons, hhanded.items, hitems, itemsFrom_succ items size (Nat.le_trans hfirst hq),
          Nat.succ_mul, Nat.add_comm, List.take_add]
      · simpa using ⟨hlimit, hlimits⟩
      · rw [List.range'_succ, List.map_cons]
        exact .cons hexecute hexecutes
      · change w₂.tasks = _
        rw [htasks, hcount]
        omega

end Shelved

end Client

end CatalogClient
