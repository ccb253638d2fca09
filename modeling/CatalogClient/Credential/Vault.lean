import CatalogClient.Credential
import CatalogClient.Failure
/-!
The one credential of a client, whether the service has rejected it, and what the last refresh came
to. The number of refreshes tells a caller that waited for one from a caller that has to make one.
-/

namespace CatalogClient

structure Vault where
  credential : Option Credential
  rejected : Bool
  lastFailure : Option Failure
  /-- The number of refreshes that have ended. -/
  generation : Nat
  deriving DecidableEq, Repr

namespace Vault

def holding (c : Option Credential) : Vault := ⟨c, false, none, 0⟩

def empty : Vault := holding none

/-- The credential, if the service has not rejected it and it does not expire within the buffer. -/
def usable? (v : Vault) (now : UtcTime) (buffer : Span) : Option Credential :=
  v.credential.filter fun c => ! v.rejected && ! c.needsRefresh now buffer

/-- The service rejected a token. Only the token that is held matters. -/
def invalidate (v : Vault) (token : String) : Vault :=
  if v.credential.any (·.accessToken = token) then { v with rejected := true } else v

def refreshed (v : Vault) : Except Failure Credential → Vault
  | .ok c => ⟨some c, false, none, v.generation + 1⟩
  | .error f => { v with lastFailure := some f, generation := v.generation + 1 }

end Vault

end CatalogClient
