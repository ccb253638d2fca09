import CatalogClient.Proofs.Bulk.Batches
import CatalogClient.Proofs.Client.Calls
/-!
A bulk operation loses nothing and keeps the order: it has one result for each item, and the lines of its
requests are those of the items.
-/

namespace CatalogClient

namespace Bulk

theorem identifier_itemResult (item : BulkItem) (answer : Except Failure Response) :
    (itemResult item answer).identifier = item.identifier := by
  cases answer <;> rfl

theorem identifiers_itemResults {items : List BulkItem} {answers : List (Except Failure Response)}
    (h : answers.length = items.length) :
    (List.zipWith itemResult items answers).map (·.identifier) = items.map (·.identifier) := by
  rw [← List.map_uncurry_zip_eq_zipWith, List.map_map]
  calc (items.zip answers).map ((·.identifier) ∘ Function.uncurry itemResult)
      = (items.zip answers).map ((·.identifier) ∘ Prod.fst) :=
        List.map_congr_left fun x _ => identifier_itemResult x.1 x.2
    _ = items.map (·.identifier) := by
        rw [← List.map_map, List.map_fst_zip (Nat.le_of_eq h.symm)]

theorem identifier_resultOf (sent : List BulkItem) (answer : Except Failure (List StatusLine))
    (position : Nat) (item : BulkItem) :
    (resultOf sent answer position item).identifier = item.identifier := by
  unfold resultOf
  split
  · rfl
  · split <;> rfl

theorem forall₂_chunkResults (chunk : List BulkItem) (answer : Except Failure Response) :
    List.Forall₂ (fun item b => b.identifier = item.identifier ∧
        (item.line? = none → b = unsendable item)) chunk (chunkResults chunk answer) := by
  refine forall₂_resultsFrom ?_ fun item _ _ => ⟨rfl, fun _ => rfl⟩
  intro before item after _ hline
  refine ⟨identifier_resultOf _ _ _ _, fun hnone => ?_⟩
  rw [hnone] at hline
  cases hline

/-- What is asked for a chunk: a request with its lines, if it has any. -/
def wanted (path : String) (chunk : List BulkItem) : Option Request :=
  if lines chunk = [] then none else some (chunkRequest path chunk)

def batchRequest (path : String) (batch : List Json) : Request :=
  (Request.patch path).withBody (.lines batch)

theorem filterMap_wanted (path : String) (chunks : List (List BulkItem)) :
    (chunks.map (wanted path)).filterMap id =
      ((chunks.map lines).filter (· ≠ [])).map (batchRequest path) := by
  induction chunks with
  | nil => rfl
  | cons chunk chunks ih =>
    simp only [List.map_cons]
    by_cases hlines : lines chunk = []
    · simpa [wanted, hlines] using ih
    · simpa [wanted, hlines, chunkRequest, batchRequest] using ih

/-- The call for the lines of a chunk is among those for all chunks, under the number of the chunk. -/
theorem mem_wanted {n j : Nat} {path : String} {chunk : List BulkItem} {chunks : List (List BulkItem)}
    {answer : Except Failure Response} {answers : List (Except Failure Response)}
    (hchunk : chunks[j]? = some chunk) (hlines : lines chunk ≠ []) (hanswer : answers[j]? = some answer) :
    ⟨n + j, chunkRequest path chunk, answer⟩ ∈ CallRecord.list n (chunks.map (wanted path)) answers := by
  refine CallRecord.mem_list.mpr ⟨j, rfl, ?_, hanswer⟩
  rw [List.getElem?_map, hchunk, Option.map_some, wanted, if_neg hlines]

end Bulk

namespace Client

variable {σ : Type} {k : Client} {p : Peer σ} {date : UtcTime} {credential : Option Credential}
  {peer : σ} {w w' : World σ} {mode : BulkMode} {items : List BulkItem}

theorem asks_order (k : Client) (r : Request) : k.Asks (k.order r) (some r) := rfl

theorem asks_chunkOrder (k : Client) (path : String) (chunk : List BulkItem) :
    k.Asks (k.chunkOrder path chunk) (Bulk.wanted path chunk) := by
  unfold chunkOrder Bulk.wanted
  split
  · exact ⟨_, rfl⟩
  · exact k.asks_order _

/-- Behind the response for a chunk is a success with which the service answered an attempt of its
request. -/
theorem answer_of_chunk {path : String} {chunk : List BulkItem} {t : Task} {a : Response}
    (ht : Settles t (k.chunkOrder path chunk) (.ok a))
    (htried : ∀ r url, t.goal = .call r url →
      Traffic.Tried p k.setup r url t (Journal.tries t.id w'.journal))
    (hanswering : Traffic.Answering t) :
    ∃ url authorization peer b elapsed n, (p.send ((Bulk.chunkRequest path chunk).attempt url
        authorization k.setup.timeout) peer).1.answer = .ok b ∧ b.isSuccess ∧
      a = b.stamped elapsed n := by
  obtain ⟨r, url, hg⟩ : ∃ r url, t.goal = .call r url := by
    rcases (k.chunkOrder_forCall path chunk).isCall with ⟨r, url, hg⟩ | ⟨f, hg⟩
    · exact ⟨r, url, ht.goal.trans hg⟩
    · rcases hanswering.stray f (ht.goal.trans hg) with hs | ⟨f', hs⟩ <;>
        cases ht.stage.symm.trans hs
  have hresponse := (htried r url hg).response ht.stage
  rw [request_of_chunkOrder (ht.goal.symm.trans hg)] at hresponse
  exact ⟨url, hresponse⟩

/-- How the calls of a bulk operation cover its items: each item has a call of its own, or its line stands
in its place among the batches of lines that the calls carry. -/
inductive Covers (size : Nat) (items : List BulkItem) (calls : List CallRecord)
    (results : List BulkResult) : BulkMode → Prop
  | perItem (hcalls : calls.map (·.request) = items.map (·.request))
    (hresults : results = List.zipWith Bulk.itemResult items (calls.map (·.answer))) :
    Covers size items calls results .perItem
  | collection {path : String} {batches : List (List Json)}
    (hcalls : calls.map (·.request) = batches.map (Bulk.batchRequest path))
    (hlines : batches.flatten = items.filterMap (·.line?))
    (hsizes : ∀ batch ∈ batches, 1 ≤ batch.length ∧ batch.length ≤ max size 1)
    (hlocal : List.Forall₂ (fun item b => item.line? = none →
      b = Bulk.unsendable item ∧ b.status = 0) items results) :
    Covers size items calls results (.collection path)

theorem perItem_covered {results : List BulkResult}
    (hr : Traffic.Reaches p k.setup ⟨k.world date credential peer, []⟩ ⟨w, []⟩)
    (h : k.bulk p .perItem items w = (.ok results, w')) :
    results.map (·.identifier) = items.map (·.identifier) ∧ ∃ calls, k.Made p w w' calls ∧
      Covers k.config.bulkBatchSize items calls results .perItem := by
  obtain ⟨answers, w₁, hanswers, hpure⟩ := Effect.bind_ok.mp h
  obtain ⟨rfl, rfl⟩ := Effect.pure_ok.mp hpure
  have hasks : ∀ r ∈ items.map (·.request), k.Asks (k.order r) (some r) :=
    fun r _ => k.asks_order r
  obtain ⟨hlen, hmade⟩ := answersTo_made hr hasks hanswers
  rw [List.length_map] at hlen
  have hlen' : answers.length = (items.map (·.request)).length := by
    rw [hlen, List.length_map]
  refine ⟨Bulk.identifiers_itemResults hlen, _, hmade, .perItem ?_ ?_⟩
  · rw [CallRecord.requests_list (hlen'.trans (List.length_map _).symm)]
    simp
  · rw [CallRecord.answers_list hlen']

theorem collection_covered {path : String} {results : List BulkResult}
    (hr : Traffic.Reaches p k.setup ⟨k.world date credential peer, []⟩ ⟨w, []⟩)
    (h : k.bulk p (.collection path) items w = (.ok results, w')) :
    results.map (·.identifier) = items.map (·.identifier) ∧ ∃ calls, k.Made p w w' calls ∧
      Covers k.config.bulkBatchSize items calls results (.collection path) := by
  obtain ⟨answers, w₁, hanswers, hpure⟩ := Effect.bind_ok.mp h
  obtain ⟨rfl, rfl⟩ := Effect.pure_ok.mp hpure
  obtain ⟨hlen, hmade⟩ := answersTo_made hr (fun chunk _ => k.asks_chunkOrder path chunk) hanswers
  have hresults := Bulk.forall₂_results hlen fun j chunk answer _ _ =>
    Bulk.forall₂_chunkResults chunk answer
  rw [Bulk.flatten_chunks] at hresults
  refine ⟨Bulk.map_eq_of_forall₂ (hresults.imp fun _ _ hb => hb.1), _, hmade,
    .collection ?_ (Bulk.flatten_batches k.config.bulkBatchSize items) (fun _ => Bulk.batches_sizes)
      (hresults.imp fun _ _ hb hnone => ⟨hb.2 hnone, hb.2 hnone ▸ rfl⟩)⟩
  rw [CallRecord.requests_list (hlen.trans (List.length_map _).symm), Bulk.filterMap_wanted]
  rfl

theorem bulk_overrun {fault : Fault}
    (hr : Traffic.Reaches p k.setup ⟨k.world date credential peer, []⟩ ⟨w, []⟩)
    (h : k.bulk p mode items w = (.error fault, w')) : World.Overrun p k.setup k.quota w w' := by
  cases mode with
  | perItem =>
    rcases Effect.bind_error h with hanswers | ⟨answers, w₁, -, hpure⟩
    · exact answersTo_overrun hr hanswers
    · cases hpure
  | collection path =>
    rcases Effect.bind_error h with hanswers | ⟨answers, w₁, -, hpure⟩
    · exact answersTo_overrun hr hanswers
    · cases hpure

/-- A bulk operation has one result for each item, in their order, and what it sends are the calls that
cover the items; but where there is no reckoning with what it meets, it has no result at all. -/
theorem bulk_complete {result : Except Fault (List BulkResult)}
    (hr : Traffic.Reaches p k.setup ⟨k.world date credential peer, []⟩ ⟨w, []⟩)
    (h : k.bulk p mode items w = (result, w')) :
    (∃ fault, result = .error fault ∧ World.Overrun p k.setup k.quota w w') ∨
      ∃ results, result = .ok results ∧ results.map (·.identifier) = items.map (·.identifier) ∧
        ∃ calls, k.Made p w w' calls ∧ Covers k.config.bulkBatchSize items calls results mode := by
  cases result with
  | ok results =>
    cases mode with
    | perItem => exact .inr ⟨results, rfl, perItem_covered hr h⟩
    | collection path => exact .inr ⟨results, rfl, collection_covered hr h⟩
  | error fault => exact .inl ⟨fault, rfl, bulk_overrun hr h⟩

end Client

def Client.inPairs : Client :=
  { Client.plain with config := { Client.plain.config with bulkBatchSize := 2 } }

def Credential.lasts : Credential := ⟨"token", "Bearer", .ofNanos (10 ^ 12), none⟩

def Client.fresh (k : Client) : World Unit := k.world (.ofNanos 0) (some .lasts) ()

def bodyless : BulkItem := ⟨"b", .get "families/b"⟩

theorem Client.bulk_complete_inPairs : ∃ results w calls,
    Client.inPairs.bulk (Peer.throughEndpoint Client.plain.endpoint writeOnly fun s => (0, s))
      (.collection "families") [oneWrite, bodyless, oneWrite] Client.inPairs.fresh = (.ok results, w) ∧
      results.map (·.identifier) = ["a", "b", "a"] ∧
      Client.inPairs.Made (Peer.throughEndpoint Client.plain.endpoint writeOnly fun s => (0, s))
        Client.inPairs.fresh w calls ∧
      Client.Covers 2 [oneWrite, bodyless, oneWrite] calls results (.collection "families") := by
  have hrun : ∃ results w, Client.inPairs.bulk
      (Peer.throughEndpoint Client.plain.endpoint writeOnly fun s => (0, s))
      (.collection "families") [oneWrite, bodyless, oneWrite] Client.inPairs.fresh =
        (.ok results, w) := ⟨_, _, rfl⟩
  obtain ⟨results, w, h⟩ := hrun
  rcases Client.bulk_complete .refl h with ⟨fault, he, -⟩ | ⟨results', he, hids, calls, hmade, hcovers⟩
  · cases he
  · cases he
    exact ⟨results, w, calls, h, hids, hmade, hcovers⟩

/-- A service that carries out writes, and whose tokens outlive every calendar. -/
def everlasting (a : Attempt) (_ : Unit) : Reply Response × Unit :=
  (⟨.zero, .ok ⟨if a.method = .patch then 204 else 200, [], Text.Utf8.encode
    (if a.method = .patch then ""
      else "\x7b\"access_token\":\"a\",\"expires_in\":9223372036854775807\x7d"), .zero, 1⟩⟩, ())

/-- One token that outlives the calendar, and no item has a result. -/
theorem Client.bulk_lost : ∃ fault w,
    Client.plain.bulk (Peer.throughEndpoint Client.plain.endpoint everlasting fun s => (0, s)) .perItem
      [oneWrite] (Client.plain.world (.ofNanos 0) none ()) = (.error fault, w) := by
  have hlost : (Client.plain.bulk
      (Peer.throughEndpoint Client.plain.endpoint everlasting fun s => (0, s)) .perItem [oneWrite]
      (Client.plain.world (.ofNanos 0) none ())).1.isOk = false := by
    decide +kernel
  rcases h : Client.plain.bulk (Peer.throughEndpoint Client.plain.endpoint everlasting fun s => (0, s))
    .perItem [oneWrite] (Client.plain.world (.ofNanos 0) none ()) with ⟨fault | results, w⟩
  · exact ⟨fault, w, rfl⟩
  · rw [h] at hlost
    cases hlost

end CatalogClient
