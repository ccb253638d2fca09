import CatalogClient.Time.Span
import CatalogClient.Width
/-!
Delays between attempts: a base that doubles with every retry up to a greatest delay, and a jitter
that spreads the delays of many callers.
-/

namespace CatalogClient

inductive Jitter
  | none
  /-- Anything up to the delay. -/
  | full
  | equal
  deriving DecidableEq, Repr

namespace Jitter

/-- The whole milliseconds that no draw takes away. -/
def least (j : Jitter) (d : Span) : Nat :=
  match j with
  | .equal => d.wholeMillis / 2
  | _ => 0

/-- The delay that a draw picks; of the draws as many pick one delay as another. -/
def apply (j : Jitter) (d : Span) (draw : Nat) : Span :=
  match j with
  | .none => d
  | _ => .ofMillis (j.least d + draw % (d.wholeMillis - j.least d + 1))

end Jitter

structure Backoff where
  base : Span
  max : Span
  jitter : Jitter
  base_pos : 0 < base.nanos
  base_le_max : base ≤ max
  deriving DecidableEq

inductive BackoffFault
  | zeroBase
  | baseAboveMax
  deriving DecidableEq, Repr

def BackoffFault.message : BackoffFault → String
  | .zeroBase => "invalid configuration: base delay must be greater than zero"
  | .baseAboveMax => "invalid configuration: base delay must not exceed max delay"

namespace Backoff

def make (base max : Span) : Except BackoffFault Backoff :=
  if hz : 0 < base.nanos then
    if hm : base ≤ max then .ok ⟨base, max, .equal, hz, hm⟩
    else .error .baseAboveMax
  else .error .zeroBase

/-- Half a second, doubling up to thirty seconds. -/
def standard : Backoff where
  base := .ofMillis 500
  max := .ofSeconds 30
  jitter := .equal
  base_pos := by decide
  base_le_max := by decide

def withJitter (b : Backoff) (j : Jitter) : Backoff := { b with jitter := j }

/-- Twice for every retry before this one, with the greatest number of 32 bits for a bound. -/
def factor (retry : Nat) : Nat := if retry < 32 then 1 <<< retry else Width.beyond32 - 1

/-- The delay before a retry, counted from zero, without jitter. -/
def rawDelay (b : Backoff) (retry : Nat) : Span :=
  match b.base.mul? (factor retry) with
  | none => b.max
  | some d => min d b.max

def delay (b : Backoff) (retry draw : Nat) : Span := b.jitter.apply (b.rawDelay retry) draw

end Backoff

end CatalogClient
