import CatalogClient.Fault
import CatalogClient.Time.Span
/-!
A quota over a rolling window: no more than `limit` slots in any stretch of time as long as the
period. Callers are never turned away, only told how long to wait. A pause that the service asks for
keeps all slots back.
-/

namespace CatalogClient

structure Quota where
  limit : Nat
  period : Span
  limit_pos : 0 < limit
  period_pos : 0 < period.nanos

inductive QuotaFault
  | zeroLimit
  | zeroPeriod
  deriving DecidableEq, Repr

def QuotaFault.message : QuotaFault → String
  | .zeroLimit => "invalid configuration: limit must be greater than 0"
  | .zeroPeriod => "invalid configuration: period must be greater than zero"

namespace Quota

theorem eq_of_fields {a b : Quota} (hl : a.limit = b.limit) (hp : a.period = b.period) : a = b := by
  cases a; cases b; cases hl; cases hp; rfl

instance : DecidableEq Quota := fun a b =>
  decidable_of_iff (a.limit = b.limit ∧ a.period = b.period)
    ⟨fun h => eq_of_fields h.1 h.2, fun h => h ▸ ⟨rfl, rfl⟩⟩

def make (limit : Nat) (period : Span) : Except QuotaFault Quota :=
  if hl : 0 < limit then
    if hp : 0 < period.nanos then .ok ⟨limit, period, hl, hp⟩ else .error .zeroPeriod
  else .error .zeroLimit

/-- Twenty slots a minute. -/
def standard : Quota where
  limit := 20
  period := .ofSeconds 60
  limit_pos := by decide
  period_pos := by decide

end Quota

structure Limiter where
  quota : Quota
  /-- When the slots of the current window were granted, oldest first. -/
  grants : List Instant
  /-- No slot is granted before this instant. -/
  blockedUntil : Option Instant
  deriving DecidableEq

/-- The answer to a caller who asks for a slot. -/
inductive Admission
  | granted
  | refused (wait : Span)
  deriving DecidableEq, Repr

namespace Limiter

def ofQuota (q : Quota) : Limiter := ⟨q, [], none⟩

/-- No single pause lasts longer. -/
def longestPenalty : Span := .ofSeconds 86400

def evict (period : Span) (now : Instant) : List Instant → Except Fault (List Instant)
  | [] => .ok []
  | g :: gs =>
    match g.add? period with
    | none => .error .clock
    | some passed => if passed ≤ now then evict period now gs else .ok (g :: gs)

def block? (l : Limiter) (now : Instant) : Option Instant := l.blockedUntil.filter (now < ·)

def windowWait (q : Quota) (now : Instant) (grants : List Instant) : Except Fault Span :=
  if grants.length < q.limit then .ok .zero
  else match grants with
    | [] => .ok .zero
    | g :: _ =>
      match g.add? q.period with
      | none => .error .clock
      | some passed => .ok (passed.since now)

def tryGrant (l : Limiter) (now : Instant) : Except Fault (Admission × Limiter) :=
  match l.block? now with
  | some blocked => .ok (.refused (blocked.since now), l)
  | none => do
    let grants ← evict l.quota.period now l.grants
    if grants.length < l.quota.limit then
      return (.granted, ⟨l.quota, grants ++ [now], none⟩)
    else return (.refused (← windowWait l.quota now grants), ⟨l.quota, grants, none⟩)

/-- A pause from `now` on. It never shortens one in force. -/
def penalize (l : Limiter) (now : Instant) (d : Span) : Limiter :=
  match now.add? (min d longestPenalty) with
  | none => l
  | some blocked =>
    match l.blockedUntil with
    | none => { l with blockedUntil := some blocked }
    | some current => if current < blocked then { l with blockedUntil := some blocked } else l

/-- The number of slots that could be granted at `now`. -/
def available (l : Limiter) (now : Instant) : Except Fault (Nat × Limiter) :=
  match l.block? now with
  | some _ => .ok (0, l)
  | none => do
    let grants ← evict l.quota.period now l.grants
    return (l.quota.limit - grants.length, { l with grants := grants })

/-- How long it takes until a slot can be granted. -/
def timeUntilAvailable (l : Limiter) (now : Instant) : Except Fault (Span × Limiter) := do
  let grants ← evict l.quota.period now l.grants
  let penalty := match l.blockedUntil with
    | none => .zero
    | some blocked => blocked.since now
  return (max penalty (← windowWait l.quota now grants), { l with grants := grants })

end Limiter

end CatalogClient
