import CatalogClient.Text.Quoted
/-!
Records shown for inspection: a name, and the fields with their values in braces. Secrets are
shown as a fixed mark.
-/

namespace CatalogClient.Text.Record

/-- The mark for a field that is left out. -/
inductive Ending
  | complete
  | more
  deriving DecidableEq, Repr

def field (name value : String) : String := name ++ ": " ++ value

def render (name : String) (fields : List (String × String)) (ending : Ending) : String :=
  let shown := fields.map fun (k, v) => field k v
  let rest := match ending with
    | .complete => []
    | .more => [".."]
  String.ofList (name.toList ++ [' ', '\x7b', ' '] ++ (", ".intercalate (shown ++ rest)).toList ++
    [' ', '\x7d'])

/-- The mark that stands for a secret. -/
def secret : String := Quoted.encode "<redacted>"

def option (inner : α → String) : Option α → String
  | none => "None"
  | some a => "Some(" ++ inner a ++ ")"

def text : String → String := Quoted.encode

def number (n : Nat) : String := String.ofList (Nat.toDigits 10 n)

def flag (b : Bool) : String := if b then "true" else "false"

end CatalogClient.Text.Record
