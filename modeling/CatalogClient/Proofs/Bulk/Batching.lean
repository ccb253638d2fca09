import CatalogClient.Proofs.Bulk.Order
import CatalogClient.Proofs.Pipeline.Served
/-!
How a bulk operation is cut into requests does not show in its results, where the service answers each
line for itself and every request is answered.
-/

namespace CatalogClient

namespace Bulk

variable {judge : Json → Nat × Option String}

/-- The result that an answer to its line alone gives to an item. -/
def verdict (judge : Json → Nat × Option String) (item : BulkItem) : BulkResult :=
  match item.line? with
  | some value => ⟨item.identifier, (judge value).1, (judge value).2⟩
  | none => unsendable item

/-- There is one status line for each line, numbered from one, with what is thought of that line. -/
def Judged (judge : Json → Nat × Option String) (ls : List Json) (statuses : List StatusLine) : Prop :=
  (statuses.map fun s => ((s.status, s.message), s.line)).Perm ((ls.map judge).zipIdx 1)

theorem Judged.line {ls : List Json} {statuses : List StatusLine} (h : Judged judge ls statuses)
    {s : StatusLine} (hs : s ∈ statuses) :
    1 ≤ s.line ∧ (ls.map judge)[s.line - 1]? = some (s.status, s.message) := by
  have hmem := h.mem_iff.mp (List.mem_map_of_mem hs)
  exact List.mk_mem_zipIdx_iff_le_and_getElem?_sub.mp hmem

theorem Judged.statusOf? {ls : List Json} {statuses : List StatusLine} (h : Judged judge ls statuses)
    (sent : List BulkItem) {j : Nat} {value : Json} (hv : ls[j]? = some value) :
    ∃ s, Bulk.statusOf? sent statuses (1 + j) = some s ∧ (s.status, s.message) = judge value := by
  have hjudged : (ls.map judge)[j]? = some (judge value) := by
    rw [List.getElem?_map, hv]
    rfl
  obtain ⟨s, hs, hpair⟩ : ∃ s ∈ statuses, ((s.status, s.message), s.line) = (judge value, 1 + j) := by
    refine List.mem_map.mp (h.mem_iff.mpr (List.mk_mem_zipIdx_iff_le_and_getElem?_sub.mpr ⟨by omega, ?_⟩))
    rwa [Nat.add_sub_cancel_left]
  have hplace : position? sent s = some (1 + j) := by
    rw [position?_of_line sent (h.line hs).1, (Prod.mk.inj hpair).2]
  cases hfound : Bulk.statusOf? sent statuses (1 + j) with
  | none =>
    have hno := List.find?_eq_none.mp hfound s hs
    simp [hplace] at hno
  | some s' =>
    obtain ⟨hle, hs'⟩ := h.line (List.mem_of_find?_eq_some hfound)
    have hat : position? sent s' = some (1 + j) := by simpa using List.find?_some hfound
    rw [position?_of_line sent hle] at hat
    rw [Option.some.inj hat, Nat.add_sub_cancel_left, hjudged] at hs'
    exact ⟨s', rfl, (Option.some.inj hs').symm⟩

variable {R : BulkItem → BulkResult → Prop} {chunk : List BulkItem}

theorem getElem?_lines {before after : List BulkItem} {item : BulkItem} {value : Json}
    (h : item.line? = some value) :
    (lines (before ++ item :: after))[(lines before).length]? = some value := by
  rw [lines_append, lines_cons h, List.getElem?_append_right (Nat.le_refl _), Nat.sub_self]
  rfl

end Bulk

namespace Client

variable {σ : Type} {k : Client} {p : Peer σ} {date : UtcTime} {credential : Option Credential}
  {peer : σ} {w w' : World σ} {items chunk : List BulkItem} {path : String}
  {judge : Json → Nat × Option String}

/-- The client with another size of its batches, and another number of them under way at once. -/
def batched (k : Client) (size window : Nat) : Client :=
  { k with config := { k.config with bulkBatchSize := size, bulkConcurrency := window } }

end Client

def StatusLine.bare (line status : Nat) : StatusLine := ⟨line, none, none, status, none⟩

end CatalogClient
