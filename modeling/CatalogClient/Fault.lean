/-!
Computations that leave the range of their numbers. A fault is no answer of the service: it ends
the operation in which it arises.
-/

namespace CatalogClient

inductive Fault
  /-- The number after the last page number. -/
  | pageNumber
  /-- The number of attempts of one call. -/
  | attemptCount
  /-- An instant beyond the clock's horizon. -/
  | clock
  /-- An expiry outside the calendar. -/
  | expiry
  deriving DecidableEq, Repr

end CatalogClient
