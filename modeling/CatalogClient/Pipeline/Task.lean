import CatalogClient.Pipeline.World
/-!
Tasks: what a caller waits for, taken apart into the steps between which other callers may act. A
call asks for a slot, then for a credential, sends an attempt, and starts again when the retry
policy says so.
-/

namespace CatalogClient

inductive Goal
  | slot
  | credential
  | call (r : Request) (url : Url)
  /-- A call that leads nowhere: it fails at once. -/
  | stray (f : Failure)
  deriving DecidableEq

def Goal.ofRequest (base : Url) (r : Request) : Goal :=
  match r.url base with
  | .ok url => .call r url
  | .error f => .stray f

inductive Outcome
  | slot
  | credential (result : Except Failure Credential)
  | answer (result : Except Failure Response)

def Outcome.answer? : Outcome → Option (Except Failure Response)
  | .answer result => some result
  | _ => none

/-- The exchanges of one refresh. -/
structure Refresh where
  grant : Grant
  /-- The retries made with this grant. -/
  retries : Nat
  /-- The grant to turn to if this one is rejected. -/
  fallback : Option Grant
  deriving DecidableEq, Repr

/-- Where a task stands. Instants are those at which it goes on. -/
inductive Stage
  /-- About to ask for a slot. -/
  | asking
  | admitting (wake : Instant)
  /-- About to look for a credential. -/
  | seeking
  /-- Before the lock, having seen this many refreshes. -/
  | queued (observed : Nat)
  | exchanging (r : Refresh)
  | awaitingToken (r : Refresh) (wake : Instant) (answer : Except Failure TokenGrant)
  | resting (r : Refresh) (wake : Instant)
  | sending (c : Credential)
  | awaitingAnswer (c : Credential) (attempt : Nat) (sent wake : Instant)
      (answer : Except Failure Response)
  | pausing (wake : Instant)
  | done (o : Outcome)

structure Task where
  id : Nat
  goal : Goal
  started : Instant
  deadline : Option Instant
  stage : Stage
  retry : RetryState

namespace Stage

/-- The instant for which a task waits by itself. -/
def wake? : Stage → Option Instant
  | .admitting wake | .resting _ wake | .pausing wake => some wake
  | .awaitingToken _ wake _ => some wake
  | .awaitingAnswer _ _ _ wake _ => some wake
  | _ => none

def outcome? : Stage → Option Outcome
  | .done o => some o
  | _ => none

end Stage

/-- The longest wait that one retry imposes. -/
def longestPause : Span := Response.longestPause

namespace Task

variable {σ : Type}

/-- A task that begins now. A deadline beyond the horizon is put thirty years off. -/
def start (w : World σ) (id : Nat) (goal : Goal) (deadline : Option Span) : Task where
  id := id
  goal := goal
  started := w.now
  deadline := deadline.map fun d =>
    w.now.timer (if (w.now.add? d).isSome then d else .ofSeconds (30 * 365 * 86400))
  stage := match goal with
    | .credential => .seeking
    | _ => .asking
  retry := .start

/-- How a step ends: with a new state, or with nothing to do before something else happens. -/
abbrev Step (σ : Type) := Except Fault (Option (World σ × Task))

def go (w : World σ) (t : Task) (s : Stage) : Step σ := .ok (some (w, { t with stage := s }))

def wait : Step σ := .ok none

def ask (w : World σ) (t : Task) : Step σ :=
  match w.limiter.tryGrant w.now with
  | .error fault => .error fault
  | .ok (.refused d, limiter) => t.go { w with limiter := limiter } (.admitting (w.now.timer d))
  | .ok (.granted, limiter) =>
    let w := { w with limiter := limiter }.note (.granted t.id)
    match t.goal with
    | .slot => t.go w (.done .slot)
    | _ => t.go w .seeking

def obtain (w : World σ) (t : Task) (result : Except Failure Credential) : Step σ :=
  let w := w.note (.obtained t.id result)
  match t.goal, result with
  | .call .., .ok c => t.go w (.sending c)
  | .call .., .error f => t.go w (.done (.answer (.error f)))
  | _, _ => t.go w (.done (.credential result))

/-- Looks for a credential without waiting, and otherwise comes before the lock. -/
def seek (c : Setup) (w : World σ) (t : Task) : Step σ :=
  match w.usable? c with
  | some credential => t.obtain w (.ok credential)
  | none => t.go { w with turnstile := w.turnstile.enter t.id } (.queued w.vault.generation)

/-- The refresh that a task with the lock begins. -/
def firstRefresh (c : Setup) (w : World σ) : Refresh :=
  match w.vault.credential.bind (·.refreshToken) with
  | some token => ⟨.refreshToken token, 0, some c.grant⟩
  | none => ⟨c.grant, 0, none⟩

def release (w : World σ) (t : Task) : World σ := { w with turnstile := w.turnstile.leave t.id }

/-- With the lock: a refresh that ended meanwhile decides, unless its credential is of no use any
more; otherwise the task refreshes the credential itself. -/
def enter (c : Setup) (w : World σ) (t : Task) (observed : Nat) : Step σ :=
  if w.turnstile.holder ≠ some t.id then wait
  else match w.usable? c with
    | some credential => t.obtain (t.release w) (.ok credential)
    | none =>
      match if w.vault.generation = observed then none else w.vault.lastFailure with
      | some f => t.obtain (t.release w) (.error f)
      | none => t.go w (.exchanging (firstRefresh c w))

def exchange (p : Peer σ) (w : World σ) (t : Task) (r : Refresh) : Step σ :=
  let (reply, peer) := p.exchange r.grant w.peer
  let w := { w with peer := peer, exchanges := w.exchanges + 1 }.note (.exchanged t.id r.grant)
  t.go w (.awaitingToken r (w.now.timer reply.latency) reply.answer)

def conclude (w : World σ) (t : Task) (result : Except Failure Credential) : Step σ :=
  let w := { w with vault := w.vault.refreshed result }.note (.refreshed t.id result)
  t.obtain (t.release w) result

/-- What follows on a failed exchange: another one with the same grant, one with the grant to turn to
where this one was rejected, or the end of the refresh. -/
def exchangeFailed (p : Peer σ) (c : Setup) (w : World σ) (t : Task) (r : Refresh) (f : Failure) :
    Step σ :=
  if f.isRetryable ∧ r.retries < c.policy.maxRetries then
    let (draw, peer) := p.draw w.peer
    let delay := min (f.retryAfter?.getD (c.policy.backoff.delay r.retries draw)) longestPause
    t.go { w with peer := peer } (.resting { r with retries := r.retries + 1 } (w.now.timer delay))
  else match r.fallback, f with
    | some grant, .authentication .. => t.go w (.exchanging ⟨grant, 0, none⟩)
    | _, _ => t.conclude w (.error f)

def issue (p : Peer σ) (c : Setup) (w : World σ) (t : Task) (r : Refresh)
    (answer : Except Failure TokenGrant) : Step σ :=
  let w := w.note (.issued t.id answer)
  match answer with
  | .ok token =>
    match Credential.issued token w.date with
    | .ok credential => t.conclude w (.ok credential)
    | .error fault => .error fault
  | .error f => t.exchangeFailed p c w r f

def send (p : Peer σ) (c : Setup) (w : World σ) (t : Task) (credential : Credential) : Step σ :=
  match t.goal with
  | .call r url =>
    match t.retry.attempts with
    | .error fault => .error fault
    | .ok attempt =>
      let message := r.attempt url credential.authorization c.timeout
      let (reply, peer) := p.send message w.peer
      let w := { w with peer := peer }.note (.sent t.id message)
      t.go w (.awaitingAnswer credential attempt w.now (w.now.timer reply.latency) reply.answer)
  | _ => t.go w (.done (.credential (.ok credential)))

def again (w : World σ) (t : Task) (delay : Span) : Step σ :=
  t.go w (if delay.isZero then .asking else .pausing (w.now.timer delay))

def decide (p : Peer σ) (c : Setup) (w : World σ) (t : Task) (credential : Credential)
    (attempt : Nat) (sent : Instant) (answer : Except Failure Response) : Step σ :=
  match t.goal with
  | .call r _ =>
    let result := answer.map fun a => { a with elapsed := w.now.since sent, attempt := attempt }
    let w := w.note (.answered t.id result)
    let (draw, peer) := p.draw w.peer
    let w := { w with peer := peer }
    let (decision, retry) := c.policy.evaluate result r t.retry draw
    let t := { t with retry := retry }
    match decision with
    | .succeed a => t.go w (.done (.answer (.ok a)))
    | .fail f => t.go w (.done (.answer (.error f)))
    | .retry delay cause _ =>
      let delay := min delay longestPause
      match cause with
      | .credentialRejected => t.again (w.invalidate credential.accessToken) delay
      | .rateLimited =>
        let w := { w with limiter := w.limiter.penalize w.now delay }
        t.again (w.note (.penalized t.id delay)) delay
      | .network | .server => t.again w delay
  | _ => t.go w (.done (.credential (.ok credential)))

/-- One step of a task, if it need not wait. -/
def step (p : Peer σ) (c : Setup) (w : World σ) (t : Task) : Step σ :=
  match t.stage with
  | .asking =>
    match t.goal with
    | .stray f => t.go w (.done (.answer (.error f)))
    | _ => t.ask w
  | .admitting wake => if wake ≤ w.now then t.ask w else wait
  | .seeking => t.seek c w
  | .queued observed => t.enter c w observed
  | .exchanging r => t.exchange p w r
  | .awaitingToken r wake answer => if wake ≤ w.now then t.issue p c w r answer else wait
  | .resting r wake => if wake ≤ w.now then t.exchange p w r else wait
  | .sending credential => t.send p c w credential
  | .awaitingAnswer credential attempt sent wake answer =>
    if wake ≤ w.now then t.decide p c w credential attempt sent answer else wait
  | .pausing wake => if wake ≤ w.now then t.ask w else wait
  | .done _ => wait

/-- The deadline of a task passes: it gives up the lock or its place before it, and fails. -/
def expire (w : World σ) (t : Task) : World σ × Task :=
  ((t.release w).note (.expired t.id),
    { t with stage := .done (.answer (.error (.timeout (w.now.since t.started)))) })

end Task

end CatalogClient
