import CatalogClient.Credential.Endpoint
import CatalogClient.Pipeline.Schedule
/-!
Operations on a world: those that may end in a fault, and calls, which may fail as well. What
happened before the end stays.
-/

namespace CatalogClient

abbrev Effect (σ : Type) := ExceptT Fault (StateM (World σ))

abbrev Call (σ : Type) := ExceptT Failure (Effect σ)

namespace Effect

variable {σ : Type}

def ofFault (e : Except Fault α) : Effect σ α := fun w => (e, w)

def perform (p : Peer σ) (c : Setup) (window : Nat) (orders : List Order) :
    Effect σ (List Outcome) :=
  fun w => let (w, result) := w.perform p c window orders; (result, w)

end Effect

namespace Call

variable {σ : Type}

def ofResult (e : Except Failure α) : Call σ α := ExceptT.mk (pure e)

end Call

/-- A peer whose tokens come from a token endpoint behind the same connection. -/
def Peer.throughEndpoint (e : TokenEndpoint) (send : Attempt → σ → Reply Response × σ)
    (draw : σ → Nat × σ) : Peer σ where
  send := send
  exchange := fun g s =>
    let (reply, s) := send (e.attempt g) s
    (⟨reply.latency, reply.answer.bind TokenEndpoint.read⟩, s)
  draw := draw

end CatalogClient
