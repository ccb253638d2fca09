import CatalogClient.Backoff
import CatalogClient.Fault
import CatalogClient.RemoteError
import CatalogClient.Request
/-!
What follows on the result of one attempt: the call succeeds, is tried again after a delay, or
fails. A rejected credential is replaced once in a call; every other retry counts against a budget.
-/

namespace CatalogClient

inductive RetryCause
  | credentialRejected
  | rateLimited
  | network
  | server
  deriving DecidableEq, Repr

def RetryCause.label : RetryCause → String
  | .credentialRejected => "credential_rejected"
  | .rateLimited => "rate_limited"
  | .network => "network"
  | .server => "server"

inductive Decision
  | succeed (r : Response)
  | retry (delay : Span) (cause : RetryCause) (f : Failure)
  | fail (f : Failure)
  deriving DecidableEq, Repr

/-- What one call has used up. -/
structure RetryState where
  retries : Nat
  /-- The credential has been replaced. -/
  refreshed : Bool
  deriving DecidableEq, Repr

namespace RetryState

def start : RetryState := ⟨0, false⟩

def attempts (s : RetryState) : Except Fault Nat :=
  let n := s.retries + 1 + (if s.refreshed then 1 else 0)
  if n < Width.beyond32 then .ok n else .error .attemptCount

end RetryState

structure RetryPolicy where
  maxRetries : Nat
  backoff : Backoff
  /-- Whether writes are sent again after ambiguous failures, if the call does not say. -/
  retryWrites : Bool
  deriving DecidableEq

namespace RetryPolicy

/-- The call may be sent again although the service may have carried it out. -/
def mayResend (p : RetryPolicy) (r : Request) : Bool :=
  r.method.isIdempotent || r.retryWrites.getD p.retryWrites

/-- The cause for which a failure allows a retry from the budget. -/
def cause? (p : RetryPolicy) (r : Request) : Failure → Option RetryCause
  | .rateLimited .. => some .rateLimited
  | .network _ _ requestSent => if ! requestSent || p.mayResend r then some .network else none
  | .api .. => if p.mayResend r then some .server else none
  | _ => none

def onFailure (p : RetryPolicy) (f : Failure) (r : Request) (s : RetryState) (draw : Nat) :
    Decision × RetryState :=
  match f with
  | .authentication .. =>
    if s.refreshed then (.fail f, s)
    else (.retry .zero .credentialRejected f, { s with refreshed := true })
  | _ =>
    match p.cause? r f with
    | none => (.fail f, s)
    | some cause =>
      if p.maxRetries ≤ s.retries then (.fail f, s)
      else (.retry (f.retryAfter?.getD (p.backoff.delay s.retries draw)) cause f,
        { s with retries := s.retries + 1 })

/-- The result of an attempt as the failure or success of a call to `path`. -/
def outcome (result : Except Failure Response) (path : String) : Except Failure Response := do
  let r ← result
  if r.isSuccess then return r else throw (r.toFailure path)

def evaluate (p : RetryPolicy) (result : Except Failure Response) (r : Request) (s : RetryState)
    (draw : Nat) : Decision × RetryState :=
  match outcome result r.path with
  | .ok response => (.succeed response, s)
  | .error f => p.onFailure f r s draw

end RetryPolicy

end CatalogClient
