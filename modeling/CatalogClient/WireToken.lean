import CatalogClient.Text.Blank
/-!
Enumerations that travel as fixed upper-case tokens. A text is read as the token it equals up to
blanks around it and the case of ASCII letters.
-/

namespace CatalogClient

class WireToken (α : Type) where
  kind : String
  all : List α
  token : α → String
  mem_all : ∀ a, a ∈ all

namespace WireToken

variable {α : Type} [WireToken α]

def parse? (s : String) : Option α :=
  all.find? fun a => Text.sameIgnoringCase (Text.trim s) (token a)

/-- The message for a text that is no token. -/
def refusal (α : Type) [WireToken α] (s : String) : String :=
  "Invalid " ++ kind α ++ ": " ++ s

end WireToken

end CatalogClient
