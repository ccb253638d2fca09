/-!
A lock that callers pass one at a time, in the order in which they came.
-/

namespace CatalogClient

structure Turnstile where
  holder : Option Nat
  /-- Those who wait, the first to come first. -/
  queue : List Nat
  deriving DecidableEq, Repr

namespace Turnstile

def free : Turnstile := ⟨none, []⟩

def enter (t : Turnstile) (i : Nat) : Turnstile :=
  match t.holder with
  | none => { t with holder := some i }
  | some _ => { t with queue := t.queue ++ [i] }

def pass (t : Turnstile) : Turnstile :=
  match t.queue with
  | [] => free
  | i :: queue => ⟨some i, queue⟩

def leave (t : Turnstile) (i : Nat) : Turnstile :=
  if t.holder = some i then t.pass else { t with queue := t.queue.filter (· ≠ i) }

end Turnstile

end CatalogClient
