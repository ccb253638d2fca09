import CatalogClient.Proofs.Client.Answers
import CatalogClient.Proofs.Pipeline.Blame
/-!
The writes that a bulk operation reports as done: what the service answered to the attempt that carried
them.
-/

namespace CatalogClient

namespace Bulk

theorem flatten_fill (size room : Nat) (as : List α) :
    (fill size room as).1 ++ (fill size room as).2.flatten = as := by
  induction as generalizing room with
  | nil => cases room <;> rfl
  | cons a as ih =>
    cases room with
    | zero => exact congrArg (a :: ·) (ih (size - 1))
    | succ room => exact congrArg (a :: ·) (ih room)

theorem flatten_chunks (size : Nat) (as : List α) : (chunks size as).flatten = as := by
  cases as with
  | nil => rfl
  | cons a as => exact congrArg (a :: ·) (flatten_fill size (size - 1) as)

theorem split_of_results {chunks : List (List BulkItem)} {answers : List (Except Failure Response)}
    {i : Nat} {b : BulkResult}
    (h : (List.zipWith chunkResults chunks answers).flatten[i]? = some b) :
    ∃ pre chunk post answer m, chunks = pre ++ chunk :: post ∧ answers[pre.length]? = some answer ∧
      (chunkResults chunk answer)[m]? = some b ∧ i = pre.flatten.length + m := by
  induction chunks generalizing answers i with
  | nil => cases h
  | cons chunk chunks ih =>
    cases answers with
    | nil => cases h
    | cons answer answers =>
      rw [List.zipWith_cons_cons, List.flatten_cons] at h
      have hlen : (chunkResults chunk answer).length = chunk.length := length_resultsFrom _ _ _
      by_cases hi : i < chunk.length
      · rw [List.getElem?_append_left (hlen ▸ hi)] at h
        exact ⟨[], chunk, chunks, answer, i, rfl, rfl, h, (Nat.zero_add i).symm⟩
      · rw [List.getElem?_append_right (by omega), hlen] at h
        obtain ⟨pre, chunk', post, answer', m, rfl, hanswer, hb, hm⟩ := ih h
        refine ⟨chunk :: pre, chunk', post, answer', m, rfl, hanswer, hb, ?_⟩
        rw [List.flatten_cons, List.length_append]
        omega

theorem split_of_resultsFrom {result : Nat → BulkItem → BulkResult} {position m : Nat}
    {chunk : List BulkItem} {b : BulkResult} (h : (resultsFrom result position chunk)[m]? = some b) :
    ∃ before item after, chunk = before ++ item :: after ∧ before.length = m ∧
      (b = unsendable item ∨ ∃ value n, item.line? = some value ∧ b = result n item) := by
  induction chunk generalizing position m with
  | nil => cases h
  | cons item chunk ih =>
    have hrest : ∀ n m', (resultsFrom result n chunk)[m']? = some b → m = m' + 1 →
        ∃ before item' after, item :: chunk = before ++ item' :: after ∧ before.length = m ∧
          (b = unsendable item' ∨ ∃ value n, item'.line? = some value ∧ b = result n item') := by
      rintro n m' hb rfl
      obtain ⟨before, item', after, rfl, rfl, hcase⟩ := ih hb
      exact ⟨item :: before, item', after, rfl, rfl, hcase⟩
    unfold resultsFrom at h
    split at h
    · rename_i hline
      cases m with
      | zero =>
        obtain ⟨value, hvalue⟩ := Option.isSome_iff_exists.mp hline
        exact ⟨[], item, chunk, rfl, rfl, .inr ⟨value, position, hvalue, (Option.some.inj h).symm⟩⟩
      | succ m => exact hrest _ m h rfl
    · cases m with
      | zero => exact ⟨[], item, chunk, rfl, rfl, .inl (Option.some.inj h).symm⟩
      | succ m => exact hrest _ m h rfl

theorem lines_append (chunk chunk' : List BulkItem) :
    lines (chunk ++ chunk') = lines chunk ++ lines chunk' := List.filterMap_append

theorem lines_cons {item : BulkItem} {value : Json} (h : item.line? = some value)
    (chunk : List BulkItem) : lines (item :: chunk) = value :: lines chunk :=
  List.filterMap_cons_some h

end Bulk

theorem BulkResult.status_of_success {identifier : String} {f : Failure}
    (h : (BulkResult.ofFailure identifier f).isSuccess) :
    ∃ status, f.status? = some status ∧ Response.isSuccessStatus status := by
  cases hs : f.status? with
  | none => simp [BulkResult.isSuccess, BulkResult.ofFailure, hs] at h
  | some status =>
    refine ⟨status, rfl, ?_⟩
    simpa [BulkResult.isSuccess, BulkResult.ofFailure, hs, Response.isSuccessStatus] using h

theorem Client.chunkOrder_forCall (k : Client) (path : String) (chunk : List BulkItem) :
    (k.chunkOrder path chunk).ForCall := by
  by_cases hlines : Bulk.lines chunk = []
  · rw [Client.chunkOrder, if_pos hlines]
    refine ⟨.inr ⟨_, rfl⟩, ?_⟩
    intro f hf
    cases hf
    rfl
  · rw [Client.chunkOrder, if_neg hlines]
    exact k.order_forCall _

theorem Client.request_of_chunkOrder {k : Client} {path : String} {chunk : List BulkItem}
    {r : Request} {url : Url} (h : (k.chunkOrder path chunk).goal = .call r url) :
    r = Bulk.chunkRequest path chunk := by
  by_cases hlines : Bulk.lines chunk = []
  · rw [Client.chunkOrder, if_pos hlines] at h
    cases h
  · rw [Client.chunkOrder, if_neg hlines] at h
    exact Client.request_of_order h

section Verdict

variable {σ : Type} {e : TokenEndpoint} {send : Attempt → σ → Reply Response × σ} {draw : σ → Nat × σ}
  {c : Setup} {w w' : World σ}

/-- Between two states of the world, an attempt was answered with a success. -/
def Delivered (send : Attempt → σ → Reply Response × σ) (w w' : World σ) (a : Attempt) : Prop :=
  ∃ id x answer peer elapsed n, w.tasks ≤ id ∧ x ∈ Journal.tries id w'.journal ∧ x.attempt = a ∧
    (send a peer).1.answer = .ok answer ∧ answer.isSuccess ∧
    x.result = some (.ok (answer.stamped elapsed n))

/-- A failure that has the status of a success: the token endpoint answered with a success in which
there was no token, or the connection failed with that status. -/
inductive Spurious (e : TokenEndpoint) (send : Attempt → σ → Reply Response × σ) (w : World σ)
    (f : Failure) : Prop
  | token (g : Grant) (peer : σ) (a : Response) (hw : w.Reported f)
    (h : (send (e.attempt g) peer).1.answer = .ok a) (ha : a.isSuccess)
    (hf : TokenEndpoint.read a = .error f)
  | connection (a : Attempt) (peer : σ) (h : (send a peer).1.answer = .error f)

theorem spurious_of_exchange {f : Failure} (hw : w.Reported f) {g : Grant} {peer : σ}
    (h : ((Peer.throughEndpoint e send draw).exchange g peer).1.answer = .error f) {status : Nat}
    (hs : f.status? = some status) (hok : Response.isSuccessStatus status) :
    Spurious e send w f := by
  change (send (e.attempt g) peer).1.answer.bind TokenEndpoint.read = .error f at h
  cases ha : (send (e.attempt g) peer).1.answer with
  | error f' =>
    rw [ha] at h
    cases h
    exact .connection _ peer ha
  | ok a =>
    rw [ha] at h
    have hstatus := TokenEndpoint.read_status h
    rw [hs] at hstatus
    cases hstatus
    exact .token g peer a hw ha hok h

theorem spurious_of_reason {t : Task} {f : Failure}
    (h : Traffic.Reason (Peer.throughEndpoint e send draw) w t f)
    (hw : Traffic.Accounted (Peer.throughEndpoint e send draw) w)
    (ht : ∀ f, t.goal = .stray f → f.status? = none) {status : Nat} (hs : f.status? = some status)
    (hok : Response.isSuccessStatus status) : Spurious e send w f := by
  cases h with
  | answered a path ha hf =>
    subst hf
    rw [a.toFailure_status] at hs
    cases hs
    rw [Response.isSuccess, hok] at ha
    cases ha
  | connection hf =>
    obtain ⟨a, peer, h⟩ := hf
    exact .connection a peer h
  | exchange hf =>
    obtain ⟨g, peer, h⟩ := hw.exchanges f hf
    exact spurious_of_exchange hf h hs hok
  | deadline elapsed hf =>
    subst hf
    cases hs
  | stray h =>
    rw [ht f h] at hs
    cases hs

theorem delivered_of_tried {p : Peer σ} {r : Request} {url : Url} {t : Task} {a : Response}
    (h : Traffic.Tried p c r url t (Journal.tries t.id w'.journal)) (hid : w.tasks ≤ t.id)
    (hs : t.stage = .done (.answer (.ok a))) :
    ∃ authorization, Delivered p.send w w' (r.attempt url authorization c.timeout) := by
  obtain ⟨hok, x, rest, htries, hx⟩ := h.succeeds a hs
  have hmem : x ∈ Journal.tries t.id w'.journal := htries ▸ List.mem_cons_self
  obtain ⟨⟨authorization, hattempt⟩, hresult⟩ := h.own x hmem
  obtain ⟨peer, elapsed, n, hsent⟩ := hresult _ hx
  rw [hattempt] at hsent
  cases hanswer : (p.send (r.attempt url authorization c.timeout) peer).1.answer with
  | error f =>
    rw [hanswer] at hsent
    cases hsent
  | ok answer =>
    rw [hanswer] at hsent
    cases hsent
    exact ⟨authorization, t.id, x, answer, peer, elapsed, n, hid, hmem, hattempt, hanswer, hok, hx⟩

variable {k : Client} {date : UtcTime} {credential : Option Credential} {peer : σ} {window : Nat}

/-- What stands behind the answers to calls: behind a success one of the service to the request, behind
a failure with the status of a success one that does not deserve it. -/
theorem Client.verdict {orders : List Order} {answers : List (Except Failure Response)}
    (hr : Traffic.Reaches (Peer.throughEndpoint k.endpoint send draw) k.setup
      ⟨k.world date credential peer, []⟩ ⟨w, []⟩) (ho : ∀ o ∈ orders, o.ForCall)
    (h : k.answersTo (Peer.throughEndpoint k.endpoint send draw) window orders w = (.ok answers, w'))
    {j : Nat} {answer : Except Failure Response} (ha : answers[j]? = some answer) :
    ∃ o, orders[j]? = some o ∧
      (∀ a, answer = .ok a → ∃ r url authorization, o.goal = .call r url ∧
        Delivered send w w' (r.attempt url authorization k.setup.timeout)) ∧
      ∀ f status, answer = .error f → f.status? = some status → Response.isSuccessStatus status →
        Spurious k.endpoint send w' f := by
  have hidle : w.Idle := (World.Idle.start date k.quota credential peer).of_reaches hr
  obtain ⟨ts, hrun, hgoals, hids, hstages, -⟩ :=
    Client.answersTo_ok hidle (fun o hmem => (ho o hmem).isCall) h
  obtain ⟨t, ht, hstage⟩ : ∃ t, ts[j]? = some t ∧ t.stage = .done (.answer answer) := by
    have hj := congrArg (·[j]?) hstages
    simpa [ha] using hj
  obtain ⟨o, hoj, hgoal⟩ : ∃ o, orders[j]? = some o ∧ o.goal = t.goal := by
    have hj := congrArg (·[j]?) hgoals
    simpa [ht] using hj.symm
  have hmem : t ∈ ts := List.mem_of_getElem? ht
  have hcall := ho o (List.mem_of_getElem? hoj)
  refine ⟨o, hoj, ?_, ?_⟩
  · rintro a rfl
    have hlate : w.tasks ≤ t.id := by
      have hid : t.id ∈ List.range' w.tasks orders.length := hids ▸ List.mem_map_of_mem hmem
      exact (List.mem_range'_1.mp hid).1
    obtain ⟨hrecorded, -⟩ := Traffic.tried_kept.reaches hr (Traffic.recorded_start _ _ _ _) (by simp)
    obtain ⟨-, htried⟩ := Traffic.tried_kept.reaches hrun hrecorded (by simp)
    rcases hcall.isCall with ⟨r, url, hg⟩ | ⟨f, hg⟩
    · obtain ⟨authorization, hdelivered⟩ :=
        delivered_of_tried ((htried t hmem).2 r url (hgoal.symm.trans hg)) hlate hstage
      exact ⟨r, url, authorization, hg, hdelivered⟩
    · obtain ⟨-, hanswering⟩ := Traffic.answering_kept.reaches hrun trivial (by simp)
      rcases (hanswering t hmem).stray f (hgoal.symm.trans hg) with hs | ⟨f', hs⟩
      · rw [hstage] at hs
        cases hs
      · rw [hstage] at hs
        cases hs
  · rintro f status rfl hs hok
    obtain ⟨haccounted, -⟩ := Traffic.explained_kept.reaches hr (Traffic.accounted_start _ _ _ _ _)
      (by simp)
    obtain ⟨haccounted, hexplained⟩ := Traffic.explained_kept.reaches hrun haccounted (by simp)
    refine spurious_of_reason ((hexplained t hmem).failure f hstage) haccounted ?_ hs hok
    exact fun f hf => hcall.stray f (hgoal.trans hf)

/-- An attempt that carries a write: one of the request of the write, or one for a chunk in which the
write has a line. -/
def Carries (items : List BulkItem) (i : Nat) (timeout : Span) (a : Attempt) : BulkMode → Prop
  | .perItem => ∃ item url authorization, items[i]? = some item ∧
    a = item.request.attempt url authorization timeout
  | .collection path => ∃ pre before item after post value url authorization,
    items = pre ++ (before ++ item :: after) ++ post ∧ i = pre.length + before.length ∧
    item.line? = some value ∧
    a = ((Request.patch path).withBody (.lines (Bulk.lines before ++ value :: Bulk.lines after))).attempt
      url authorization timeout

variable {mode : BulkMode} {items : List BulkItem} {results : List BulkResult}

theorem Client.perItem_success (hr : Traffic.Reaches (Peer.throughEndpoint k.endpoint send draw)
      k.setup ⟨k.world date credential peer, []⟩ ⟨w, []⟩)
    (h : k.bulk (Peer.throughEndpoint k.endpoint send draw) .perItem items w = (.ok results, w'))
    {i : Nat} {b : BulkResult} (hb : results[i]? = some b) (hs : b.isSuccess) :
    (∃ a, Carries items i k.setup.timeout a .perItem ∧ Delivered send w w' a) ∨
      ∃ item f, items[i]? = some item ∧ b = .ofFailure item.identifier f ∧
        Spurious k.endpoint send w' f := by
  obtain ⟨answers, w₁, hanswers, hpure⟩ := Effect.bind_ok.mp h
  obtain ⟨rfl, rfl⟩ := Effect.pure_ok.mp hpure
  obtain ⟨item, answer, hitem, hanswer, rfl⟩ := List.getElem?_zipWith_eq_some.mp hb
  have horders : ∀ o ∈ (items.map (·.request)).map k.order, o.ForCall := by
    intro o ho
    obtain ⟨r, -, rfl⟩ := List.mem_map.mp ho
    exact k.order_forCall r
  obtain ⟨o, ho, hok, herror⟩ := Client.verdict hr horders hanswers hanswer
  cases answer with
  | ok a =>
    obtain ⟨r, url, authorization, hg, hdelivered⟩ := hok a rfl
    have horder : o = k.order item.request := by simpa [hitem] using ho.symm
    subst horder
    cases Client.request_of_order hg
    exact .inl ⟨_, ⟨item, url, authorization, hitem, rfl⟩, hdelivered⟩
  | error f =>
    obtain ⟨status, hstatus, hsuccess⟩ := BulkResult.status_of_success hs
    exact .inr ⟨item, f, hitem, rfl, herror f status rfl hstatus hsuccess⟩

theorem Client.collection_success {path : String}
    (hr : Traffic.Reaches (Peer.throughEndpoint k.endpoint send draw) k.setup
      ⟨k.world date credential peer, []⟩ ⟨w, []⟩)
    (h : k.bulk (Peer.throughEndpoint k.endpoint send draw) (.collection path) items w =
      (.ok results, w'))
    {i : Nat} {b : BulkResult} (hb : results[i]? = some b) (hs : b.isSuccess) :
    (∃ a, Carries items i k.setup.timeout a (.collection path) ∧ Delivered send w w' a) ∨
      ∃ item f, items[i]? = some item ∧ b = .ofFailure item.identifier f ∧
        Spurious k.endpoint send w' f := by
  obtain ⟨answers, w₁, hanswers, hpure⟩ := Effect.bind_ok.mp h
  obtain ⟨rfl, rfl⟩ := Effect.pure_ok.mp hpure
  obtain ⟨pre, chunk, post, answer, m, hchunks, hanswer, hresult, rfl⟩ := Bulk.split_of_results hb
  obtain ⟨before, item, after, rfl, rfl, hcase⟩ := Bulk.split_of_resultsFrom hresult
  have hitems : items = pre.flatten ++ (before ++ item :: after) ++ post.flatten := by
    have hflat := Bulk.flatten_chunks k.config.bulkBatchSize items
    rw [hchunks] at hflat
    simpa using hflat.symm
  have hitem : items[pre.flatten.length + before.length]? = some item := by
    rw [hitems]
    simp
  have horders : ∀ o ∈ (Bulk.chunks k.config.bulkBatchSize items).map (k.chunkOrder path),
      o.ForCall := by
    intro o ho
    obtain ⟨chunk, -, rfl⟩ := List.mem_map.mp ho
    exact k.chunkOrder_forCall path chunk
  obtain ⟨o, ho, hok, herror⟩ := Client.verdict hr horders hanswers hanswer
  rcases hcase with rfl | ⟨value, n, hvalue, rfl⟩
  · obtain ⟨status, hstatus, -⟩ := BulkResult.status_of_success hs
    cases hstatus
  · cases answer with
    -- Whatever the status lines say, the request with the line was answered.
    | ok a =>
      obtain ⟨r, url, authorization, hg, hdelivered⟩ := hok a rfl
      have horder : o = k.chunkOrder path (before ++ item :: after) := by
        simpa [hchunks] using ho.symm
      subst horder
      cases Client.request_of_chunkOrder hg
      rw [Bulk.chunkRequest, Bulk.lines_append, Bulk.lines_cons hvalue] at hdelivered
      exact .inl ⟨_, ⟨_, before, item, after, _, value, url, authorization, hitems, rfl, hvalue, rfl⟩,
        hdelivered⟩
    | error f =>
      obtain ⟨status, hstatus, hsuccess⟩ := BulkResult.status_of_success hs
      exact .inr ⟨item, f, hitem, rfl, herror f status rfl hstatus hsuccess⟩

/-- A write that is reported as done was carried by an attempt that the service answered with a success,
unless its call failed with the status of one. -/
theorem Client.bulk_success (hr : Traffic.Reaches (Peer.throughEndpoint k.endpoint send draw)
      k.setup ⟨k.world date credential peer, []⟩ ⟨w, []⟩)
    (h : k.bulk (Peer.throughEndpoint k.endpoint send draw) mode items w = (.ok results, w'))
    {i : Nat} {b : BulkResult} (hb : results[i]? = some b) (hs : b.isSuccess) :
    (∃ a, Carries items i k.setup.timeout a mode ∧ Delivered send w w' a) ∨
      ∃ item f, items[i]? = some item ∧ b = .ofFailure item.identifier f ∧
        Spurious k.endpoint send w' f := by
  cases mode with
  | perItem => exact Client.perItem_success hr h hb hs
  | collection path => exact Client.collection_success hr h hb hs

end Verdict

def Client.plain : Client where
  config := .make "https://pim.example.com" "id" "secret"
  setup := .plain 3
  quota := .standard
  endpoint := ⟨(Setup.plain 3).base, "", .ofSeconds 1⟩

/-- A service that carries out writes, and issues no tokens. -/
def writeOnly (a : Attempt) (_ : Unit) : Reply Response × Unit :=
  (⟨.zero, .ok ⟨if a.method = .patch then 204 else 500, [], [], .zero, 1⟩⟩, ())

/-- A service that answers with a success whatever it is asked, and says nothing more. -/
def mute (_ : Attempt) (_ : Unit) : Reply Response × Unit := (⟨.zero, .ok ⟨200, [], [], .zero, 1⟩⟩, ())

def oneWrite : BulkItem := ⟨"a", (Request.patch "families/a").withJson .null⟩

theorem Client.bulk_success_stored : ∃ results w b,
    Client.plain.bulk (Peer.throughEndpoint Client.plain.endpoint writeOnly fun s => (0, s)) .perItem
      [oneWrite] (Client.plain.world (.ofNanos 0) (some ⟨"token", "Bearer", .ofNanos (10 ^ 12), none⟩) ())
      = (.ok results, w) ∧ results[0]? = some b ∧ b.isSuccess ∧
      ∃ a, Carries [oneWrite] 0 Client.plain.setup.timeout a .perItem ∧
        Delivered writeOnly
          (Client.plain.world (.ofNanos 0) (some ⟨"token", "Bearer", .ofNanos (10 ^ 12), none⟩) ()) w a := by
  have hrun : ∃ results w, Client.plain.bulk
      (Peer.throughEndpoint Client.plain.endpoint writeOnly fun s => (0, s)) .perItem [oneWrite]
      (Client.plain.world (.ofNanos 0) (some ⟨"token", "Bearer", .ofNanos (10 ^ 12), none⟩) ()) =
        (.ok results, w) ∧ results[0]? = some ⟨"a", 204, none⟩ := ⟨_, _, rfl, rfl⟩
  obtain ⟨results, w, h, hb⟩ := hrun
  refine ⟨results, w, _, h, hb, rfl, ?_⟩
  rcases Client.bulk_success .refl h hb rfl with hdelivered | ⟨item, f, -, -, hspurious⟩
  · exact hdelivered
  · cases hspurious with
    | token g peer a hw ha hok hf =>
      cases ha
      cases hok
    | connection a peer ha => cases ha

/-- An answer without a token passes for the success of a write that was never sent. -/
theorem Client.success_unsent : ∃ results w b,
    Client.plain.bulk (Peer.throughEndpoint Client.plain.endpoint mute fun s => (0, s)) .perItem [oneWrite]
      (Client.plain.world (.ofNanos 0) none ()) = (.ok results, w) ∧
      results[0]? = some b ∧ b.isSuccess ∧ (∀ id, Journal.tries id w.journal = []) ∧
      ¬ ∃ a, Carries [oneWrite] 0 Client.plain.setup.timeout a .perItem ∧
        Delivered mute (Client.plain.world (.ofNanos 0) none ()) w a := by
  have hrun : ∃ results w b, Client.plain.bulk
      (Peer.throughEndpoint Client.plain.endpoint mute fun s => (0, s)) .perItem [oneWrite]
      (Client.plain.world (.ofNanos 0) none ()) = (.ok results, w) ∧
      results[0]? = some b ∧ b.isSuccess ∧ ∀ id, Journal.tries id w.journal = [] :=
    ⟨_, _, _, rfl, rfl, rfl, fun id => rfl⟩
  obtain ⟨results, w, b, h, hb, hs, htries⟩ := hrun
  refine ⟨results, w, b, h, hb, hs, htries, ?_⟩
  rintro ⟨a, -, id, x, answer, peer, elapsed, n, -, hx, -⟩
  rw [htries id] at hx
  cases hx

end CatalogClient
