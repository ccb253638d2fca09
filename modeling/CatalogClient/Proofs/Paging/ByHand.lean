import CatalogClient.Proofs.Bulk.Order
import CatalogClient.Proofs.Pipeline.Faults
import CatalogClient.Walk
/-!
Walks and paging by hand. Whoever takes items of a walk gets what paging by hand brings, page by page, and
no page is asked for before the items of all pages before it have been handed out.
-/

namespace CatalogClient

/-- How paging by hand ends. -/
inductive Ending
  | enough
  | last
  | failed (f : Failure)

namespace Ending

variable {α : Type}

def failures : Ending → List (Except Failure α)
  | .failed f => [.error f]
  | _ => []

end Ending

namespace Page

variable {α : Type}

def handed (pages : List (Page α)) : List α := pages.flatMap (·.items)

@[simp] theorem handed_nil : handed ([] : List (Page α)) = [] := rfl

@[simp] theorem handed_cons (page : Page α) (pages : List (Page α)) :
    handed (page :: pages) = page.items ++ handed pages := rfl

/-- A full page without links whose number has no successor. -/
structure AtLimit (page : Page α) : Prop where
  links : page.links = []
  items : page.items ≠ []
  full : page.limit ≤ page.items.length
  number : Width.beyond32 ≤ page.number + 1

theorem nextRequest_error {page : Page α} {fault : Fault} :
    page.nextRequest = .error fault ↔ fault = .pageNumber ∧ page.AtLimit := by
  have hrequest : page.nextRequest = .error fault ↔ page.nextCursor = .error fault := by
    unfold nextRequest
    cases page.nextCursor with
    | error fault' => exact ⟨fun h => by cases h; rfl, fun h => by cases h; rfl⟩
    | ok cursor => exact ⟨fun h => (by cases h), fun h => (by cases h)⟩
  rw [hrequest, nextCursor]
  split
  · rename_i hlinks
    exact ⟨fun h => (by cases h), fun ⟨_, h⟩ => absurd h.links hlinks⟩
  · rename_i hlinks
    split
    · rename_i hpart
      refine ⟨fun h => (by cases h), fun ⟨_, h⟩ => ?_⟩
      rcases hpart with hempty | hshort
      · exact absurd (List.isEmpty_iff.mp hempty) h.items
      · exact absurd h.full (Nat.not_le.mpr hshort)
    · rename_i hpart
      have hitems : page.items ≠ [] := fun h => hpart (.inl (List.isEmpty_iff.mpr h))
      have hfull : page.limit ≤ page.items.length := Nat.not_lt.mp fun h => hpart (.inr h)
      split
      · rename_i hnumber
        exact ⟨fun h => (by cases h), fun ⟨_, h⟩ => absurd h.number (Nat.not_le.mpr hnumber)⟩
      · rename_i hnumber
        constructor
        · rintro h
          cases h
          exact ⟨rfl, not_not.mp hlinks, hitems, hfull, Nat.not_lt.mp hnumber⟩
        · rintro ⟨rfl, -⟩
          rfl

end Page

namespace Effect

variable {σ α β : Type}

def outcomeMap (g : α → β) (x : Except Fault α × World σ) : Except Fault β × World σ :=
  (x.1.map g, x.2)

theorem bind_pure_apply (x : Effect σ α) (g : α → β) (w : World σ) :
    (x >>= fun a => pure (g a)) w = outcomeMap g (x w) := by
  rw [bind_apply]
  rcases x w with ⟨fault | a, w₁⟩ <;> rfl

end Effect

namespace Call

variable {σ α β : Type}

theorem lift_bind (x : Effect σ α) (g : α → Call σ β) :
    ((x : Call σ α) >>= g).run = x >>= fun a => (g a).run := by
  rw [ExceptT.run_bind]
  change (Except.ok <$> x >>= _) = _
  rw [bind_map_left]

end Call

namespace Client

variable {σ α : Type} (k : Client) (p : Peer σ) (f : Json.Decoder α)

/-- Pages by hand behind a page, at most so many of them, and how it ends. -/
def pagesAfter : Nat → Page α → Effect σ (List (Page α) × Ending)
  | 0, _ => return ([], .enough)
  | m + 1, previous => do
    match ← (k.pageAfter p f previous).run with
    | .error failure => return ([], .failed failure)
    | .ok none => return ([], .last)
    | .ok (some page) =>
      let (pages, ending) ← pagesAfter m page
      return (page :: pages, ending)

/-- Pages by hand: the first page, and then the page behind each, at most so many. -/
def pages : Nat → Request → Effect σ (List (Page α) × Ending)
  | 0, _ => return ([], .enough)
  | m + 1, r => do
    match ← (k.page p f r).run with
    | .error failure => return ([], .failed failure)
    | .ok page =>
      let (pages, ending) ← k.pagesAfter p f m page
      return (page :: pages, ending)

/-- Pages by hand where it is known what to ask for next, if anything. -/
def pagesOn (m : Nat) : Option Request → Effect σ (List (Page α) × Ending)
  | some r => k.pages p f m r
  | none => if m = 0 then return ([], .enough) else return ([], .last)

variable {k p f} {m : Nat} {r : Request} {previous page : Page α} {w w₁ : World σ}

theorem pageAfter_last (h : previous.nextRequest = .ok none) :
    (k.pageAfter p f previous).run w = (.ok (.ok none), w) := by
  rw [pageAfter, Call.lift_bind, Effect.bind_apply, h]
  rfl

theorem pageAfter_next (h : previous.nextRequest = .ok (some r)) :
    (k.pageAfter p f previous).run w =
      Effect.outcomeMap (Except.map some) ((k.page p f r).run w) := by
  rw [pageAfter, Call.lift_bind, Effect.bind_apply, h]
  change (ExceptT.run (k.page p f r >>= fun page => pure (some page))) w = _
  rw [ExceptT.run_bind, Effect.bind_apply]
  rcases (k.page p f r).run w with ⟨fault | ⟨failure | page⟩, w₁⟩ <;> rfl

theorem pages_succ_failed {failure : Failure}
    (h : (k.page p f r).run w = (.ok (.error failure), w₁)) :
    k.pages p f (m + 1) r w = (.ok ([], .failed failure), w₁) := by
  rw [pages, Effect.bind_apply, h]
  rfl

theorem pages_succ_fault {fault : Fault} (h : (k.page p f r).run w = (.error fault, w₁)) :
    k.pages p f (m + 1) r w = (.error fault, w₁) := by
  rw [pages, Effect.bind_apply, h]

theorem pages_succ_page (h : (k.page p f r).run w = (.ok (.ok page), w₁)) :
    k.pages p f (m + 1) r w =
      Effect.outcomeMap (Prod.map (page :: ·) id) (k.pagesAfter p f m page w₁) := by
  rw [pages, Effect.bind_apply, h]
  exact Effect.bind_pure_apply _ _ _

theorem pagesAfter_eq {next : Option Request} (h : page.nextRequest = .ok next) :
    k.pagesAfter p f m page w = k.pagesOn p f m next w := by
  cases m with
  | zero => cases next <;> rfl
  | succ m =>
    rw [pagesAfter, Effect.bind_apply]
    cases next with
    | none =>
      rw [pageAfter_last h]
      rfl
    | some r =>
      rw [pageAfter_next h]
      dsimp only [pagesOn]
      rcases hpage : (k.page p f r).run w with ⟨fault | ⟨failure | page⟩, w₁⟩
      · exact (pages_succ_fault hpage).symm
      · exact (pages_succ_failed hpage).symm
      · rw [pages_succ_page hpage]
        exact Effect.bind_pure_apply _ _ _

end Client

namespace Walk

open Page (handed)

variable {σ α : Type}

/-- So many pages that a walk gives up among them, for none but the last has items. -/
structure Barren (fuel : Nat) (pages : List (Page α)) : Prop where
  long : fuel ≤ pages.length
  blank : ∀ page ∈ pages.take (fuel - 1), page.items = []

theorem Barren.cons {fuel : Nat} {page : Page α} {pages : List (Page α)} (h : Barren fuel pages)
    (hblank : 0 < fuel → page.items = []) : Barren (fuel + 1) (page :: pages) := by
  refine ⟨Nat.succ_le_succ h.long, ?_⟩
  intro page' hmem
  cases fuel with
  | zero => cases hmem
  | succ fuel =>
    rcases List.mem_cons.mp hmem with rfl | hmem
    · exact hblank (Nat.succ_pos fuel)
    · exact h.blank page' hmem

/-- What `n` items taken come to where some stand ready, against pages by hand. The first pair is what
the paging comes to and the world behind it; the second is that of the taking. -/
inductive Follows (ready : List α) (n : Nat) :
    Except Fault (List (Page α) × Ending) × World σ →
      Except Fault (List (Except Failure α)) × World σ → Prop
  | hands (pages : List (Page α)) (ending : Ending) (w : World σ)
      (wanted : ending = .enough → n ≤ ready.length + (handed pages).length) :
      Follows ready n (.ok (pages, ending), w)
        (.ok (((ready ++ handed pages).map Except.ok ++ ending.failures).take n), w)
  | faults (fault : Fault) (w : World σ) : Follows ready n (.error fault, w) (.error fault, w)
  /-- The page behind the last has no number, and the items of the last are lost. -/
  | uncounted (pages : List (Page α)) (page : Page α) (w : World σ) (limit : page.AtLimit) :
      Follows ready n (.ok (pages ++ [page], .enough), w) (.error .pageNumber, w)
  | givesUp (before pages : List (Page α)) (w : World σ) (barren : Barren plenty pages)
      (taken : List (Except Failure α)) :
      Follows ready n (.ok (before ++ pages, .enough), w) (.ok taken, w)

variable {k : Client} {p : Peer σ} {f : Json.Decoder α} {ready : List α} {n : Nat}
  {byHand : Except Fault (List (Page α) × Ending) × World σ}
  {taken : Except Fault (List (Except Failure α)) × World σ}

theorem Follows.item (h : Follows ready n byHand taken) (a : α) :
    Follows (a :: ready) (n + 1) byHand (Effect.outcomeMap (.ok a :: ·) taken) := by
  cases h with
  | hands pages ending w wanted =>
    refine .hands pages ending w fun hending => ?_
    have hn := wanted hending
    simp only [List.length_cons]
    omega
  | faults fault w => exact .faults fault w
  | uncounted pages page w limit => exact .uncounted pages page w limit
  | givesUp before pages w barren taken => exact .givesUp before pages w barren _

theorem Follows.page {page : Page α} (h : Follows page.items n byHand taken) :
    Follows [] n (Effect.outcomeMap (Prod.map (page :: ·) id) byHand) taken := by
  cases h with
  | hands pages ending w wanted =>
    refine .hands (page :: pages) ending w fun hending => ?_
    have hn := wanted hending
    simp only [Page.handed_cons, List.length_append, List.length_nil]
    omega
  | faults fault w => exact .faults fault w
  | uncounted pages last w limit => exact .uncounted (page :: pages) last w limit
  | givesUp before pages w barren taken => exact .givesUp (page :: before) pages w barren taken

/-- So many pages come, and do not hold as many items as are wanted. -/
def Wanting (k : Client) (p : Peer σ) (f : Json.Decoder α) (ready : List α) (next : Option Request)
    (w : World σ) (n m : Nat) : Prop :=
  ∃ pages w', k.pagesOn p f m next w = (.ok (pages, .enough), w') ∧
    ready.length + (handed pages).length < n

theorem wanting_zero {next : Option Request} {w : World σ} (h : ready.length < n) :
    Wanting k p f ready next w n 0 := by
  refine ⟨[], w, ?_, by simpa using h⟩
  cases next <;> rfl

theorem Wanting.page {r : Request} {page : Page α} {next : Option Request} {w w₁ : World σ} {m : Nat}
    (hpage : (k.page p f r).run w = (.ok (.ok page), w₁)) (hnext : page.nextRequest = .ok next)
    (h : Wanting k p f page.items next w₁ n m) : Wanting k p f [] (some r) w n (m + 1) := by
  obtain ⟨pages, w', hpages, hcount⟩ := h
  refine ⟨page :: pages, w', ?_, ?_⟩
  · dsimp only [Client.pagesOn]
    rw [Client.pages_succ_page hpage, Client.pagesAfter_eq hnext, hpages]
    rfl
  · simp only [Page.handed_cons, List.length_append, List.length_nil]
    omega

/-- What `n` items of a walk come to where so many pages without items bound the first of them. -/
def takeWithin (k : Client) (p : Peer σ) (f : Json.Decoder α) (fuel : Nat) :
    Nat → Walk α → Effect σ (List (Except Failure α))
  | 0, _ => return []
  | n + 1, walk => do
    match ← pull k p f fuel walk with
    | (none, _) => return []
    | (some a, rest) => return a :: (← take k p f n rest)

theorem take_eq_takeWithin (n : Nat) (walk : Walk α) :
    take k p f n walk = takeWithin k p f plenty n walk := by
  cases n <;> rfl

theorem take_over (n : Nat) (w : World σ) :
    take k p f n (.over : Walk α) w = (.ok [], w) := by
  cases n <;> rfl

theorem ofPage_ok {page : Page α} {next : Option Request} (h : page.nextRequest = .ok next) :
    ofPage page = .ok (.within page.items next) := by
  rw [ofPage, h]
  rfl

theorem ofPage_error {page : Page α} {fault : Fault} (h : page.nextRequest = .error fault) :
    ofPage page = .error fault := by
  rw [ofPage, h]
  rfl

theorem pull_asks {fuel : Nat} {r : Request} {w : World σ} :
    pull k p f (fuel + 1) (.within [] (some r)) w = match (k.page p f r).run w with
      | (.ok (.ok page), w₁) => (Effect.ofFault (ofPage page) >>= pull k p f fuel) w₁
      | (.ok (.error failure), w₁) => (.ok (some (.error failure), .over), w₁)
      | (.error fault, w₁) => (.error fault, w₁) := by
  rw [pull]
  change ((k.page p f r).run >>= _) w = _
  rw [Effect.bind_apply]
  rcases (k.page p f r).run w with ⟨fault | ⟨failure | page⟩, w₁⟩ <;> rfl

theorem pull_page {fuel : Nat} {r : Request} {page : Page α} {next : Option Request} {w w₁ : World σ}
    (hpage : (k.page p f r).run w = (.ok (.ok page), w₁)) (hnext : page.nextRequest = .ok next) :
    pull k p f (fuel + 1) (.within [] (some r)) w = pull k p f fuel (.within page.items next) w₁ := by
  rw [pull_asks, hpage]
  dsimp only
  rw [ofPage_ok hnext, Effect.bind_apply]
  rfl

section Tracked

variable {fuel : Nat} {next : Option Request} {w w₁ : World σ}

/-- The taking follows the paging for some number of pages, and each number below is too small; or it
gives up within its first pull. -/
def Tracked (k : Client) (p : Peer σ) (f : Json.Decoder α) (fuel : Nat) (ready : List α)
    (next : Option Request) (w : World σ) (n : Nat) : Prop :=
  ∃ m, (∀ m' < m, Wanting k p f ready next w n m') ∧
    (Follows ready n (k.pagesOn p f m next w)
        (takeWithin k p f fuel n (.within ready next) w) ∨
      ∃ pages w' items, k.pagesOn p f m next w = (.ok (pages, .enough), w') ∧
        takeWithin k p f fuel n (.within ready next) w = (.ok items, w') ∧
        Barren fuel pages ∧ (0 < fuel → ready = []))

theorem Tracked.item (h : Tracked k p f plenty ready next w n) (a : α) :
    Tracked k p f (fuel + 1) (a :: ready) next w (n + 1) := by
  obtain ⟨m, hwanting, hfollows⟩ := h
  have htaken : takeWithin k p f (fuel + 1) (n + 1) (.within (a :: ready) next) w =
      Effect.outcomeMap (.ok a :: ·) (takeWithin k p f plenty n (.within ready next) w) := by
    rw [takeWithin, Effect.bind_apply, ← take_eq_takeWithin]
    exact Effect.bind_pure_apply _ _ _
  refine ⟨m, ?_, ?_⟩
  · intro m' hm'
    obtain ⟨pages, w', hpages, hcount⟩ := hwanting m' hm'
    refine ⟨pages, w', hpages, ?_⟩
    simp only [List.length_cons]
    omega
  · rw [htaken]
    rcases hfollows with hfollows | ⟨pages, w', items, hpages, htaken', hbarren, -⟩
    · exact .inl (hfollows.item a)
    · rw [hpages, htaken']
      exact .inl (.givesUp [] pages w' hbarren _)

theorem Tracked.page {r : Request} {page : Page α}
    (hpage : (k.page p f r).run w = (.ok (.ok page), w₁)) (hnext : page.nextRequest = .ok next)
    (h : Tracked k p f fuel page.items next w₁ (n + 1)) :
    Tracked k p f (fuel + 1) [] (some r) w (n + 1) := by
  obtain ⟨m, hwanting, hfollows⟩ := h
  have htaken : takeWithin k p f (fuel + 1) (n + 1) (.within [] (some r)) w =
      takeWithin k p f fuel (n + 1) (.within page.items next) w₁ := by
    rw [takeWithin, takeWithin, Effect.bind_apply, Effect.bind_apply, pull_page hpage hnext]
  have hpages : k.pagesOn p f (m + 1) (some r) w =
      Effect.outcomeMap (Prod.map (page :: ·) id) (k.pagesOn p f m next w₁) := by
    rw [← Client.pagesAfter_eq hnext]
    exact Client.pages_succ_page hpage
  refine ⟨m + 1, ?_, ?_⟩
  · intro m' hm'
    cases m' with
    | zero => exact wanting_zero (Nat.succ_pos n)
    | succ m' => exact (hwanting m' (Nat.lt_of_succ_lt_succ hm')).page hpage hnext
  · rw [htaken, hpages]
    rcases hfollows with hfollows | ⟨pages, w', items, hpages', htaken', hbarren, hready⟩
    · exact .inl hfollows.page
    · refine .inr ⟨page :: pages, w', items, ?_, htaken', hbarren.cons hready, fun _ => rfl⟩
      rw [hpages']
      rfl

theorem Tracked.settled
    (h : Follows [] (n + 1) (k.pagesOn p f 1 next w)
      (takeWithin k p f (fuel + 1) (n + 1) (.within [] next) w)) :
    Tracked k p f (fuel + 1) [] next w (n + 1) := by
  refine ⟨1, ?_, .inl h⟩
  intro m' hm'
  cases Nat.lt_one_iff.mp hm'
  exact wanting_zero (Nat.succ_pos n)

theorem takeWithin_some {walk rest : Walk α} {a : Except Failure α}
    (h : pull k p f fuel walk w = (.ok (some a, rest), w₁)) :
    takeWithin k p f fuel (n + 1) walk w = Effect.outcomeMap (a :: ·) (take k p f n rest w₁) := by
  rw [takeWithin, Effect.bind_apply, h]
  exact Effect.bind_pure_apply _ _ _

theorem tracked (n fuel : Nat) (ready : List α) (next : Option Request) (w : World σ) :
    Tracked k p f fuel ready next w n := by
  -- A page that comes costs a unit of fuel; an item handed out restores all of it. So the fuel is the
  -- inner of two inductions.
  induction n generalizing fuel ready next w with
  | zero =>
    refine ⟨0, by simp, .inl ?_⟩
    have hpages : k.pagesOn p f 0 next w = (.ok ([], .enough), w) := by cases next <;> rfl
    rw [hpages]
    exact .hands [] .enough w fun _ => Nat.zero_le _
  | succ n ihn =>
    induction fuel generalizing ready next w with
    | zero =>
      refine ⟨0, by simp, .inr ⟨[], w, [], ?_, rfl, ⟨Nat.le_refl 0, by simp⟩, by simp⟩⟩
      cases next <;> rfl
    | succ fuel ihf =>
      cases ready with
      | cons a ready => exact (ihn plenty ready next w).item a
      | nil =>
        cases next with
        | none =>
          apply Tracked.settled
          exact .hands [] .last w (by simp)
        | some r =>
          rcases hpage : (k.page p f r).run w with ⟨fault | ⟨failure | page⟩, w₁⟩
          · apply Tracked.settled
            have hpull : pull k p f (fuel + 1) (.within [] (some r)) w = (.error fault, w₁) := by
              rw [pull_asks, hpage]
            rw [Client.pagesOn, Client.pages_succ_fault hpage, takeWithin, Effect.bind_apply, hpull]
            exact .faults fault w₁
          · apply Tracked.settled
            have hpull : pull k p f (fuel + 1) (.within [] (some r)) w =
                (.ok (some (.error failure), .over), w₁) := by
              rw [pull_asks, hpage]
            rw [Client.pagesOn, Client.pages_succ_failed hpage, takeWithin_some hpull, take_over]
            have hhands : Follows ([] : List α) (n + 1) (.ok ([], .failed failure), w₁)
                (.ok ((Ending.failed failure).failures.take (n + 1)), w₁) :=
              .hands [] (.failed failure) w₁ (by simp)
            rwa [List.take_of_length_le (by simp [Ending.failures])] at hhands
          · cases hnext : page.nextRequest with
            | ok next => exact (ihf page.items next w₁).page hpage hnext
            | error fault =>
              obtain ⟨rfl, hlimit⟩ := Page.nextRequest_error.mp hnext
              apply Tracked.settled
              have hpull : pull k p f (fuel + 1) (.within [] (some r)) w =
                  (.error .pageNumber, w₁) := by
                rw [pull_asks, hpage]
                dsimp only
                rw [ofPage_error hnext, Effect.bind_apply]
                rfl
              rw [Client.pagesOn, Client.pages_succ_page hpage, takeWithin, Effect.bind_apply, hpull]
              exact .uncounted [] page w₁ hlimit

end Tracked

theorem take_before (n : Nat) (r : Request) (w : World σ) :
    take k p f n (.before r) w = take k p f n (.within [] (some r)) w := by
  cases n <;> rfl

theorem follows_pagesOn (n : Nat) (ready : List α) (next : Option Request) (w : World σ) :
    ∃ m, (∀ m' < m, Wanting k p f ready next w n m') ∧
      Follows ready n (k.pagesOn p f m next w) (take k p f n (.within ready next) w) := by
  obtain ⟨m, hwanting, hfollows⟩ := tracked (k := k) (p := p) (f := f) n plenty ready next w
  refine ⟨m, hwanting, ?_⟩
  rw [take_eq_takeWithin]
  rcases hfollows with hfollows | ⟨pages, w', items, hpages, htaken, hbarren, -⟩
  · exact hfollows
  · rw [hpages, htaken]
    exact .givesUp [] pages w' hbarren items

/-- Taking items of a list follows paging by hand for some number of pages, the least that settles what
to hand out: below it, all pages have come and hold fewer items than are wanted. -/
theorem take_follows_pages (k : Client) (p : Peer σ) (f : Json.Decoder α) (n : Nat) (r : Request)
    (w : World σ) :
    ∃ m, Follows [] n (k.pages p f m r w) (take k p f n (.before r) w) ∧
      ∀ m' < m, ∃ pages w', k.pages p f m' r w = (.ok (pages, .enough), w') ∧
        (handed pages).length < n := by
  obtain ⟨m, hwanting, hfollows⟩ := follows_pagesOn (k := k) (p := p) (f := f) n [] (some r) w
  refine ⟨m, ?_, ?_⟩
  · rw [take_before]
    exact hfollows
  · intro m' hm'
    obtain ⟨pages, w', hpages, hcount⟩ := hwanting m' hm'
    exact ⟨pages, w', hpages, by simpa using hcount⟩

end Walk

def Peer.telling (body : Attempt → String) : Peer Unit where
  send a _ := (⟨.zero, .ok ⟨200, [], Text.Utf8.encode (body a), .zero, 1⟩⟩, ())
  exchange _ _ := (⟨.zero, .ok ⟨"token", 3600, none, none, none⟩⟩, ())
  draw _ := (0, ())

theorem Peer.telling_issues (body : Attempt → String) : (Peer.telling body).Issues (.ofNanos 0) :=
  fun _ _ => ⟨_, _, rfl, rfl⟩

def Peer.lastNumber : Peer Unit :=
  .telling fun _ => String.ofList (Envelope.toJson ⟨[], some 4294967295, none, [.ofNat 1]⟩).write

def Request.oneByOne : Request := (Request.get "families").withPair "limit" "1"

/-- By hand the page comes with its item; one who takes the item gets nothing, for the page is not yet
handed out when the number of the next is too great. -/
theorem Client.item_lost :
    (Client.plain.pages .lastNumber Json.Decode.json 1 .oneByOne Client.plain.fresh).1.toOption.map
        (fun result => Page.handed result.1) = some [.ofNat 1] ∧
      (Walk.take Client.plain .lastNumber Json.Decode.json 1 (.before .oneByOne)
        Client.plain.fresh).1.toOption = none := by
  refine ⟨?_, ?_⟩
  · decide +kernel
  · decide +kernel

end CatalogClient
