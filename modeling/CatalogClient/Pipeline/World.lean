import CatalogClient.Attempt
import CatalogClient.Credential.Grant
import CatalogClient.Credential.Vault
import CatalogClient.Limiter
import CatalogClient.Pipeline.Turnstile
import CatalogClient.Retry
/-!
What all calls of a client share: the clock, the quota, the credential, and the service behind the
connection. The journal keeps what happened, the latest first.
-/

namespace CatalogClient

/-- An answer and the time it takes to come. -/
structure Reply (α : Type) where
  latency : Span
  answer : Except Failure α

/-- The other side of the connection, with a state of its own, and a source of chance. -/
structure Peer (σ : Type) where
  send : Attempt → σ → Reply Response × σ
  exchange : Grant → σ → Reply TokenGrant × σ
  draw : σ → Nat × σ

/-- What does not change while a client lives. -/
structure Setup where
  base : Url
  policy : RetryPolicy
  timeout : Span
  deadline : Option Span
  /-- The grant that is used where there is no refresh token. -/
  grant : Grant
  /-- How long before its expiry a credential is replaced. -/
  buffer : Span

/-- Tasks are named by numbers. -/
inductive Event
  | granted (task : Nat)
  | sent (task : Nat) (a : Attempt)
  | answered (task : Nat) (result : Except Failure Response)
  | penalized (task : Nat) (d : Span)
  | exchanged (task : Nat) (g : Grant)
  | issued (task : Nat) (result : Except Failure TokenGrant)
  | refreshed (task : Nat) (result : Except Failure Credential)
  /-- A task got a credential, or learned that there is none. -/
  | obtained (task : Nat) (result : Except Failure Credential)
  | invalidated (token : String)
  | expired (task : Nat)

structure Entry where
  time : Instant
  event : Event

structure World (σ : Type) where
  now : Instant
  date : UtcTime
  limiter : Limiter
  vault : Vault
  /-- Who may refresh the credential. -/
  turnstile : Turnstile
  exchanges : Nat
  tasks : Nat
  peer : σ
  journal : List Entry

namespace World

variable {σ : Type}

def start (date : UtcTime) (limiter : Limiter) (credential : Option Credential) (peer : σ) :
    World σ :=
  ⟨.start, date, limiter, .holding credential, .free, 0, 0, peer, []⟩

def note (w : World σ) (e : Event) : World σ := { w with journal := ⟨w.now, e⟩ :: w.journal }

/-- The credential that can be presented now. -/
def usable? (w : World σ) (c : Setup) : Option Credential := w.vault.usable? w.date c.buffer

def invalidate (w : World σ) (token : String) : World σ :=
  { w with vault := w.vault.invalidate token }.note (.invalidated token)

end World

end CatalogClient
