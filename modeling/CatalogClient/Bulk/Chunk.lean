import CatalogClient.Bulk.Item
import CatalogClient.Bulk.StatusLine
/-!
Collections: the writes of a bulk operation cut into chunks, the lines that one request carries
for a chunk, and the results that its answer gives to the writes. A write without a line is
answered here and never sent.
-/

namespace CatalogClient.Bulk

/-- The elements that still go into a chunk with room for `room` more, and the chunks behind it. -/
def fill (size : Nat) : Nat → List α → List α × List (List α)
  | _, [] => ([], [])
  | 0, a :: as =>
    let (chunk, chunks) := fill size (size - 1) as
    ([], (a :: chunk) :: chunks)
  | room + 1, a :: as =>
    let (chunk, chunks) := fill size room as
    (a :: chunk, chunks)

/-- Chunks of `size` elements, of one where `size` is zero; the last one may hold fewer. -/
def chunks (size : Nat) (as : List α) : List (List α) := (fill size 0 as).2

def sent (chunk : List BulkItem) : List BulkItem := chunk.filter (·.line?.isSome)

def lines (chunk : List BulkItem) : List Json := chunk.filterMap (·.line?)

def chunkRequest (collection : String) (chunk : List BulkItem) : Request :=
  (Request.patch collection).withBody (.lines (lines chunk))

/-- The number of the line a status speaks of: its own number, or the first line sent for the key
it names. -/
def position? (sent : List BulkItem) (s : StatusLine) : Option Nat :=
  if 0 < s.line then some s.line
  else s.key?.bind fun k => (sent.findIdx? (·.identifier = k)).map (· + 1)

def statusOf? (sent : List BulkItem) (statuses : List StatusLine) (position : Nat) :
    Option StatusLine :=
  statuses.find? fun s => position? sent s = some position

def missingStatus (identifier : String) : BulkResult :=
  ⟨identifier, 0, some "no per-item status returned"⟩

def resultOf (sent : List BulkItem) (answer : Except Failure (List StatusLine)) (position : Nat)
    (i : BulkItem) : BulkResult :=
  match answer with
  | .error f => .ofFailure i.identifier f
  | .ok statuses =>
    match statusOf? sent statuses position with
    | some s => ⟨i.identifier, s.status, s.message⟩
    | none => missingStatus i.identifier

def unsendable (i : BulkItem) : BulkResult :=
  .ofFailure i.identifier (.invalidField i.identifier "native bulk items need a JSON body")

/-- The results of the writes, the next line sent having the given number. -/
def resultsFrom (result : Nat → BulkItem → BulkResult) : Nat → List BulkItem → List BulkResult
  | _, [] => []
  | position, i :: is =>
    if i.line?.isSome then result position i :: resultsFrom result (position + 1) is
    else unsendable i :: resultsFrom result position is

theorem length_resultsFrom (result : Nat → BulkItem → BulkResult) (position : Nat)
    (is : List BulkItem) : (resultsFrom result position is).length = is.length := by
  induction is generalizing position with
  | nil => rfl
  | cons i is ih => simp only [resultsFrom]; split <;> simp [ih]

def itemResult (i : BulkItem) (answer : Except Failure Response) : BulkResult :=
  match answer with
  | .ok r => ⟨i.identifier, r.status, none⟩
  | .error f => .ofFailure i.identifier f

def chunkResults (chunk : List BulkItem) (answer : Except Failure Response) : List BulkResult :=
  resultsFrom (resultOf (sent chunk) (answer.bind fun r => StatusLine.readAll r.text)) 1 chunk

end CatalogClient.Bulk
