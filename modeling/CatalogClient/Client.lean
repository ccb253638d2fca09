import CatalogClient.Bulk.Chunk
import CatalogClient.Delivery
import CatalogClient.Page
import CatalogClient.Pipeline.Effect
import CatalogClient.Resource
/-!
Clients: what a configuration comes to, and the calls that can be made with it.
-/

namespace CatalogClient

structure Client where
  config : Config
  setup : Setup
  quota : Quota
  endpoint : TokenEndpoint

/-- How the writes of a bulk operation reach the service. -/
inductive BulkMode
  /-- Each write as a call of its own. -/
  | perItem
  /-- Many writes as the lines of one call. -/
  | collection (path : String)
  deriving DecidableEq, Repr

namespace Client

/-- The client for settings that have been checked, with the quota given or that of the settings. -/
def assemble (c : Config) (jitter : Jitter) (quota : Option Quota) : Except Failure Client := do
  let backoff ← (Backoff.make (.ofMillis c.backoffBaseMillis) (.ofMillis c.backoffMaxMillis)).mapError
    fun f => .config f.message
  let endpoint ← TokenEndpoint.ofConfig c
  let quota ← match quota with
    | some q => pure q
    | none => (Quota.make c.rateLimitCalls c.rateLimitPeriod).mapError fun f => .config f.message
  let base ← c.base
  return {
    config := c
    setup := {
      base := base
      policy := ⟨c.maxRetries, backoff.withJitter jitter, c.retryWrites⟩
      timeout := c.timeout
      deadline := c.deadline
      grant := c.grant
      buffer := c.tokenBuffer }
    quota := quota
    endpoint := endpoint }

def build (c : Config) (jitter : Jitter) (quota : Option Quota) : Except Failure Client := do
  c.validate
  assemble c jitter quota

/-- The client that talks to the service itself. -/
def production (c : Config) : Except Failure Client := do
  c.validate
  Delivery.checkUserAgent c.userAgent
  assemble c .equal none

variable {σ : Type} (k : Client) (p : Peer σ)

def world (date : UtcTime) (credential : Option Credential) (peer : σ) : World σ :=
  .start date (.ofQuota k.quota) credential peer

def order (r : Request) : Order := ⟨.ofRequest k.setup.base r, r.deadline.or k.setup.deadline⟩

/-- Carries out orders; what is no answer to a call does not count. -/
def answersTo (window : Nat) (orders : List Order) : Effect σ (List (Except Failure Response)) := do
  let outcomes ← Effect.perform p k.setup window orders
  return outcomes.filterMap (·.answer?)

def answers (window : Nat) (rs : List Request) : Effect σ (List (Except Failure Response)) :=
  answersTo k p window (rs.map k.order)

def execute (r : Request) : Call σ Response := ExceptT.mk do
  match ← k.answers p 1 [r] with
  | [result] => return result
  | _ => return .error (.internal "no answer")

def fetch (f : Json.Decoder α) (r : Request) : Call σ α := do
  let a ← k.execute p r
  Call.ofResult (a.decode f)

def credential : Call σ Credential := ExceptT.mk do
  match ← Effect.perform p k.setup 1 [⟨.credential, none⟩] with
  | [.credential result] => return result
  | _ => return .error (.internal "no answer")

def page (f : Json.Decoder α) (r : Request) : Call σ (Page α) := do
  return .ofEnvelope (← k.fetch p (Envelope.decoder f) r) r

def pageAfter (f : Json.Decoder α) (previous : Page α) : Call σ (Option (Page α)) := do
  match ← (Effect.ofFault previous.nextRequest : Effect σ _) with
  | none => return none
  | some r => return some (← k.page p f r)

/-- The call for a chunk of writes. A chunk without lines is not sent: its call fails at once, and
nobody looks at the answer. -/
def chunkOrder (path : String) (chunk : List BulkItem) : Order :=
  if Bulk.lines chunk = [] then ⟨.stray (.internal "nothing to send"), none⟩
  else k.order (Bulk.chunkRequest path chunk)

/-- The results of writes, one for each, in their order. -/
def bulk (mode : BulkMode) (items : List BulkItem) : Effect σ (List BulkResult) := do
  let window := max k.config.bulkConcurrency 1
  match mode with
  | .perItem =>
    let results ← k.answers p window (items.map (·.request))
    return List.zipWith Bulk.itemResult items results
  | .collection path =>
    let chunks := Bulk.chunks k.config.bulkBatchSize items
    let results ← k.answersTo p window (chunks.map (k.chunkOrder path))
    return (List.zipWith Bulk.chunkResults chunks results).flatten

/-- The payloads as changes of the resources they name, each a line of the collection. Where one of
them has no key, none is written. -/
def upsert (collection keyField : String) (payloads : List Json) : Call σ (List BulkResult) := do
  let items ← Call.ofResult (Resource.upserts collection keyField payloads)
  k.bulk p (.collection collection) items

end Client

end CatalogClient
