import CatalogClient.Proofs.Bulk.Order
import CatalogClient.Proofs.Json.RoundTrip
import CatalogClient.Proofs.Pipeline.Quota
/-!
Payloads that are written through a collection: none of them where one has no key, and otherwise each of them, as it
is, in a line of its own.
-/

namespace CatalogClient

namespace Resource

variable {collection keyField key : String} {payload : Json} {payloads : List Json}

/-- A payload has its key in it already. -/
theorem keyedLine_same (hordered : payload.InOrder) (h : keyOf? keyField payload = some key) :
    keyedLine keyField key payload = payload := by
  obtain ⟨v, hget, hstring⟩ := Option.bind_eq_some_iff.mp h
  cases hordered with
  | @object members hkeys _ =>
    cases v with
    | string s =>
      cases hstring
      rw [keyedLine, Json.insertMember_same hkeys hget]
    | _ => cases hstring
  | _ => cases hget

/-- The payload at the index is the first without a key. -/
structure FirstKeyless (keyField : String) (payloads : List Json) (index : Nat) : Prop where
  keyless : ∃ payload, payloads[index]? = some payload ∧ keyOf? keyField payload = none
  before : ∀ payload ∈ payloads.take index, (keyOf? keyField payload).isSome

/-- The writes have the payloads for their lines, and their keys. -/
structure Write (keyField : String) (payloads : List Json) (items : List BulkItem) : Prop where
  keys : items.map (some ·.identifier) = payloads.map (keyOf? keyField)
  lines : items.map (·.line?) = payloads.map some

theorem upserts_from (collection keyField : String) (hordered : ∀ payload ∈ payloads, payload.InOrder) (n : Nat) :
    (∃ index, FirstKeyless keyField payloads index ∧
      (payloads.zipIdx n).mapM (fun x => keyed collection keyField x.1 x.2) =
        .error (.invalidField keyField (keylessMessage keyField (n + index)))) ∨
      ∃ items, Write keyField payloads items ∧
        (payloads.zipIdx n).mapM (fun x => keyed collection keyField x.1 x.2) = .ok items := by
  induction payloads generalizing n with
  | nil => exact .inr ⟨[], ⟨rfl, rfl⟩, rfl⟩
  | cons payload payloads ih =>
    obtain ⟨hpayload, hrest⟩ := List.forall_mem_cons.mp hordered
    rw [List.zipIdx_cons, except_mapM_cons]
    cases hkey : keyOf? keyField payload with
    | none =>
      refine .inl ⟨0, ⟨⟨payload, rfl, hkey⟩, by simp⟩, ?_⟩
      rw [keyed, hkey]
      rfl
    | some key =>
      rw [keyed, hkey]
      obtain ⟨index, hfirst, hfault⟩ | ⟨items, hwrite, hitems⟩ := ih hrest (n + 1)
      · refine .inl ⟨index + 1, ⟨hfirst.keyless, ?_⟩, ?_⟩
        · rw [List.take_succ_cons]
          exact List.forall_mem_cons.mpr ⟨by rw [hkey]; rfl, hfirst.before⟩
        · rw [hfault, Nat.add_right_comm]
          rfl
      · refine .inr ⟨⟨key, update collection key (keyedLine keyField key payload)⟩ :: items, ⟨?_, ?_⟩, ?_⟩
        · rw [List.map_cons, List.map_cons, hwrite.keys, hkey]
        · rw [List.map_cons, List.map_cons, hwrite.lines, keyedLine_same hpayload hkey]
          rfl
        · rw [hitems]
          rfl

/-- The payloads are refused for the first one without a key, or all of them become writes. -/
theorem upserts_cases (collection keyField : String) (hordered : ∀ payload ∈ payloads, payload.InOrder) :
    (∃ index, FirstKeyless keyField payloads index ∧ upserts collection keyField payloads =
      .error (.invalidField keyField (keylessMessage keyField index))) ∨
      ∃ items, Write keyField payloads items ∧ upserts collection keyField payloads = .ok items := by
  have hcases := upserts_from collection keyField hordered 0
  simp only [Nat.zero_add] at hcases
  exact hcases

theorem Write.filterMap_line? {items : List BulkItem} (h : Write keyField payloads items) :
    items.filterMap (·.line?) = payloads := by
  have hlines := congrArg (·.filterMap id) h.lines
  simpa [List.filterMap_map, Function.comp_def] using hlines

theorem Write.isSome_keyOf? {items : List BulkItem} (h : Write keyField payloads items) :
    ∀ payload ∈ payloads, (keyOf? keyField payload).isSome := by
  intro payload hpayload
  have hmem : keyOf? keyField payload ∈ items.map (some ·.identifier) := h.keys ▸ List.mem_map_of_mem hpayload
  obtain ⟨item, -, hitem⟩ := List.mem_map.mp hmem
  rw [← hitem]
  rfl

end Resource

namespace Client

open Resource

variable {σ : Type} {k : Client} {p : Peer σ} {date : UtcTime} {credential : Option Credential} {peer : σ}
  {w w' : World σ} {collection keyField : String} {payloads : List Json} {items : List BulkItem}

theorem upsert_refused {f : Failure} (h : upserts collection keyField payloads = .error f) (w : World σ) :
    (k.upsert p collection keyField payloads).run w = (.ok (.error f), w) := by
  rw [upsert, h]
  rfl

theorem upsert_written (h : upserts collection keyField payloads = .ok items) (w : World σ) :
    (k.upsert p collection keyField payloads).run w =
      match k.bulk p (.collection collection) items w with
      | (.ok results, w₁) => (.ok (.ok results), w₁)
      | (.error fault, w₁) => (.error fault, w₁) := by
  rw [upsert, h]
  change ((k.bulk p (.collection collection) items >>= fun results => pure (Except.ok results)) : Effect σ _) w = _
  rw [Effect.bind_apply]
  rcases k.bulk p (.collection collection) items w with ⟨fault | results, w₁⟩ <;> rfl

/-- Calls that carry payloads to a collection: what is sent are batches of lines, the payloads one behind the other,
and a batch that was answered has been sent. -/
structure Sends (k : Client) (p : Peer σ) (collection : String) (payloads : List Json) (w w' : World σ)
    (calls : List CallRecord) : Prop where
  made : k.Made p w w' calls
  lines : ∃ batches : List (List Json), calls.map (·.request) = batches.map (Bulk.batchRequest collection) ∧
    batches.flatten = payloads ∧ ∀ batch ∈ batches, 1 ≤ batch.length ∧ batch.length ≤ max k.config.bulkBatchSize 1
  delivered : ∀ x ∈ calls, ∀ a, x.answer = .ok a → ∃ url authorization, x.request.url k.setup.base = .ok url ∧
    w.Notes w' (.sent x.task (x.request.attempt url authorization k.setup.timeout))

/-- Where a payload has no key the call fails for the first of them, and nothing has happened. Otherwise every payload
has a result under its key, and what is sent are the payloads as they are; but where there is no reckoning with what
the call meets, it has no result at all. -/
theorem upsert_whole {result : Except Fault (Except Failure (List BulkResult))}
    (hr : Traffic.Reaches p k.setup ⟨k.world date credential peer, []⟩ ⟨w, []⟩)
    (hordered : ∀ payload ∈ payloads, payload.InOrder)
    (h : (k.upsert p collection keyField payloads).run w = (result, w')) :
    (∃ index, FirstKeyless keyField payloads index ∧ w' = w ∧
      result = .ok (.error (.invalidField keyField (keylessMessage keyField index)))) ∨
    (∀ payload ∈ payloads, (keyOf? keyField payload).isSome) ∧
      ((∃ fault, result = .error fault ∧ World.Overrun p k.setup k.quota w w') ∨
        ∃ results calls, result = .ok (.ok results) ∧
          results.map (some ·.identifier) = payloads.map (keyOf? keyField) ∧
          k.Sends p collection payloads w w' calls) := by
  obtain ⟨index, hfirst, hfault⟩ | ⟨items, hwrite, hitems⟩ := upserts_cases collection keyField hordered
  · rw [upsert_refused hfault] at h
    cases h
    exact .inl ⟨index, hfirst, rfl, rfl⟩
  refine .inr ⟨hwrite.isSome_keyOf?, ?_⟩
  rw [upsert_written hitems] at h
  rcases hbulk : k.bulk p (.collection collection) items w with ⟨fault | results, w₁⟩
  · rw [hbulk] at h
    cases h
    exact .inl ⟨fault, rfl, bulk_overrun hr hbulk⟩
  · rw [hbulk] at h
    cases h
    obtain ⟨hkeys, calls, hmade, hcovers⟩ := collection_covered hr hbulk
    cases hcovers with
    | collection hcalls hlines hsizes _ =>
      refine .inr ⟨results, calls, rfl, ?_, hmade, ⟨_, hcalls, ?_, hsizes⟩, fun x hx a ha => hmade.delivered hr hx ha⟩
      · have hsome := congrArg (·.map some) hkeys
        simp only [List.map_map] at hsome
        exact hsome.trans hwrite.keys
      · exact hlines.trans hwrite.filterMap_line?

end Client

def Json.coded (code : String) : Json := .object [("code", .string code), ("enabled", .bool true)]

theorem Json.inOrder_coded (code : String) : (Json.coded code).InOrder := by
  have hkeys : ("code" : String) < "enabled" := by decide
  exact .object (by simpa using hkeys) (by simp [Json.InOrder.string, Json.InOrder.bool])

theorem Client.upsert_whole_inPairs : ∃ results w calls,
    (Client.inPairs.upsert (Peer.throughEndpoint Client.plain.endpoint writeOnly fun s => (0, s)) "families" "code"
      [.coded "a", .coded "b", .coded "a"]).run Client.inPairs.fresh = (.ok (.ok results), w) ∧
    results.map (some ·.identifier) = [some "a", some "b", some "a"] ∧
    Client.inPairs.Sends (Peer.throughEndpoint Client.plain.endpoint writeOnly fun s => (0, s)) "families"
      [.coded "a", .coded "b", .coded "a"] Client.inPairs.fresh w calls := by
  have hrun : ∃ results w, (Client.inPairs.upsert
      (Peer.throughEndpoint Client.plain.endpoint writeOnly fun s => (0, s)) "families" "code"
      [.coded "a", .coded "b", .coded "a"]).run Client.inPairs.fresh = (.ok (.ok results), w) := ⟨_, _, rfl⟩
  obtain ⟨results, w, h⟩ := hrun
  have hordered : ∀ payload ∈ [Json.coded "a", .coded "b", .coded "a"], payload.InOrder := by
    simp [Json.inOrder_coded]
  rcases Client.upsert_whole .refl hordered h with
    ⟨_, -, -, hfault⟩ | ⟨-, ⟨_, hfault, -⟩ | ⟨results', calls, hok, hkeys, hsends⟩⟩
  · cases hfault
  · cases hfault
  · cases hok
    exact ⟨results, w, calls, h, hkeys, hsends⟩

/-- One token that outlives the calendar, and a payload with its key has no result and is not sent. -/
theorem Client.upsert_lost : Resource.keyOf? "code" (.coded "a") = some "a" ∧ ∃ fault w,
    (Client.plain.upsert (Peer.throughEndpoint Client.plain.endpoint everlasting fun s => (0, s)) "families" "code"
      [.coded "a"]).run (Client.plain.world (.ofNanos 0) none ()) = (.error fault, w) ∧
    ∀ e ∈ w.journal, ∀ i a, e.event ≠ .sent i a := by
  refine ⟨rfl, ?_⟩
  have hlost : ((Client.plain.upsert (Peer.throughEndpoint Client.plain.endpoint everlasting fun s => (0, s)) "families"
      "code" [.coded "a"]).run (Client.plain.world (.ofNanos 0) none ())).1.isOk = false := by
    decide +kernel
  have hsilent : Journal.sendings ((Client.plain.upsert
      (Peer.throughEndpoint Client.plain.endpoint everlasting fun s => (0, s)) "families" "code" [.coded "a"]).run
        (Client.plain.world (.ofNanos 0) none ())).2.journal = [] := by
    decide +kernel
  rcases h : (Client.plain.upsert (Peer.throughEndpoint Client.plain.endpoint everlasting fun s => (0, s)) "families"
    "code" [.coded "a"]).run (Client.plain.world (.ofNanos 0) none ()) with ⟨fault | results, w⟩
  · rw [h] at hsilent
    refine ⟨fault, w, rfl, fun e he i a hsent => ?_⟩
    have hquiet := List.filterMap_eq_nil_iff.mp hsilent e he
    rw [hsent] at hquiet
    cases hquiet
  · rw [h] at hlost
    cases hlost

end CatalogClient
