import CatalogClient.Pipeline.Effect
/-!
What a journal tells: the attempts and the exchanges, the earliest first.
-/

namespace CatalogClient.Journal

/-- The attempts, those for tokens among them where tokens come from an endpoint. -/
def attempts (endpoint : Option TokenEndpoint) (journal : List Entry) : List (Instant × Attempt) :=
  journal.reverse.filterMap fun e =>
    match e.event, endpoint with
    | .sent _ a, _ => some (e.time, a)
    | .exchanged _ g, some endpoint => some (e.time, endpoint.attempt g)
    | _, _ => none

def exchanges (journal : List Entry) : List (Instant × Grant) :=
  journal.reverse.filterMap fun e =>
    match e.event with
    | .exchanged _ g => some (e.time, g)
    | _ => none

def grants (journal : List Entry) : List Instant :=
  journal.reverse.filterMap fun e =>
    match e.event with
    | .granted _ => some e.time
    | _ => none

end CatalogClient.Journal
