import CatalogClient.Proofs.Bulk.Success
import Mathlib.Data.List.Forall2
/-!
The chunks of a bulk operation, the batches of lines in their requests, and the results that their
answers give to the items.
-/

namespace CatalogClient.Bulk

variable {size : Nat} {items chunk : List BulkItem}

theorem fill_sizes (size room : Nat) (as : List α) : (fill size room as).1.length ≤ room ∧
    ∀ chunk ∈ (fill size room as).2, 1 ≤ chunk.length ∧ chunk.length ≤ max size 1 := by
  induction as generalizing room with
  | nil => cases room <;> exact ⟨Nat.zero_le _, by simp [fill]⟩
  | cons a as ih =>
    cases room with
    | zero =>
      obtain ⟨hfirst, hrest⟩ := ih (size - 1)
      refine ⟨Nat.le_refl _, ?_⟩
      intro chunk hmem
      rcases List.mem_cons.mp hmem with rfl | hmem
      · rw [List.length_cons]
        omega
      · exact hrest chunk hmem
    | succ room =>
      obtain ⟨hfirst, hrest⟩ := ih room
      exact ⟨Nat.succ_le_succ hfirst, hrest⟩

theorem chunks_sizes {as chunk : List α} (h : chunk ∈ chunks size as) :
    1 ≤ chunk.length ∧ chunk.length ≤ max size 1 :=
  (fill_sizes size 0 as).2 chunk h

theorem lines_flatten (chunks : List (List BulkItem)) :
    (chunks.map lines).flatten = lines chunks.flatten :=
  List.filterMap_flatten.symm

theorem lines_infix (h : chunk ∈ chunks size items) : lines chunk <:+: lines items := by
  have hmem := List.infix_of_mem_flatten (List.mem_map_of_mem (f := lines) h)
  rwa [lines_flatten, flatten_chunks] at hmem

/-- The lines of each request. -/
def batches (size : Nat) (items : List BulkItem) : List (List Json) :=
  ((chunks size items).map lines).filter (· ≠ [])

theorem flatten_batches (size : Nat) (items : List BulkItem) :
    (batches size items).flatten = lines items := by
  rw [batches, List.flatten_filter_ne_nil, lines_flatten, flatten_chunks]

theorem batches_sizes {batch : List Json} (h : batch ∈ batches size items) :
    1 ≤ batch.length ∧ batch.length ≤ max size 1 := by
  obtain ⟨hmem, hne⟩ := List.mem_filter.mp h
  obtain ⟨chunk, hchunk, rfl⟩ := List.mem_map.mp hmem
  refine ⟨List.length_pos_of_ne_nil (by simpa using hne), ?_⟩
  exact Nat.le_trans (List.length_filterMap_le _ _) (chunks_sizes hchunk).2

theorem position?_of_line (sent : List BulkItem) {s : StatusLine} (h : 1 ≤ s.line) :
    position? sent s = some s.line :=
  if_pos h

theorem findIdx?_identifier_iff {sent : List BulkItem} {key : String} {i : Nat} :
    sent.findIdx? (·.identifier = key) = some i ↔
      (sent.map (·.identifier))[i]? = some key ∧ ∀ j < i, (sent.map (·.identifier))[j]? ≠ some key := by
  rw [List.findIdx?_eq_some_iff_getElem]
  simp only [List.getElem?_map, decide_eq_true_eq]
  constructor
  · rintro ⟨hi, hkey, hfirst⟩
    rw [List.getElem?_eq_getElem hi]
    refine ⟨congrArg some hkey, fun j hj hsame => hfirst j hj ?_⟩
    rw [List.getElem?_eq_getElem (Nat.lt_trans hj hi)] at hsame
    exact Option.some.inj hsame
  · rintro ⟨hplace, hfirst⟩
    obtain ⟨item, hitem, hkey⟩ := Option.map_eq_some_iff.mp hplace
    obtain ⟨hi, rfl⟩ := List.getElem?_eq_some_iff.mp hitem
    refine ⟨hi, hkey, fun j hj hsame => hfirst j hj ?_⟩
    rw [List.getElem?_eq_getElem (Nat.lt_trans hj hi)]
    exact congrArg some hsame

theorem map_eq_of_forall₂ {f : α → γ} {g : β → γ} {as : List α} {bs : List β}
    (h : List.Forall₂ (fun a b => g b = f a) as bs) : bs.map g = as.map f := by
  induction h with
  | nil => rfl
  | cons hab _ ih => rw [List.map_cons, List.map_cons, hab, ih]

theorem zipWith_same {f : α → β → γ} {as : List α} {bs bs' : List β} (hlen : bs'.length = bs.length)
    (h : ∀ (j : Nat) a b b', as[j]? = some a → bs[j]? = some b → bs'[j]? = some b' → f a b' = f a b) :
    List.zipWith f as bs' = List.zipWith f as bs := by
  induction as generalizing bs bs' with
  | nil => rfl
  | cons a as ih =>
    cases bs with
    | nil => rw [List.length_eq_zero_iff.mp hlen]
    | cons b bs =>
      cases bs' with
      | nil => cases hlen
      | cons b' bs' =>
        rw [List.zipWith_cons_cons, List.zipWith_cons_cons, h 0 a b b' rfl rfl rfl,
          ih (Nat.succ.inj hlen) fun j a b b' ha hb hb' => h (j + 1) a b b' ha hb hb']

theorem forall₂_zipWith_getElem? {R : α → γ → Prop} {f : α → β → γ} {as : List α} {bs : List β}
    (hlen : bs.length = as.length)
    (h : ∀ (j : Nat) a b, as[j]? = some a → bs[j]? = some b → R a (f a b)) :
    List.Forall₂ R as (List.zipWith f as bs) := by
  induction as generalizing bs with
  | nil => exact .nil
  | cons a as ih =>
    cases bs with
    | nil => cases hlen
    | cons b bs =>
      refine .cons (h 0 a b rfl rfl) (ih (Nat.succ.inj hlen) ?_)
      exact fun j a' b' ha hb => h (j + 1) a' b' ha hb

section Results

variable {R : BulkItem → BulkResult → Prop} {result : Nat → BulkItem → BulkResult} {position : Nat}

/-- What holds of every item with a line and the result for its position, and of every other item and its
local result, holds of the items and their results. -/
theorem forall₂_resultsFrom
    (hsent : ∀ before item after, chunk = before ++ item :: after → item.line?.isSome →
      R item (result (position + (lines before).length) item))
    (hlocal : ∀ item ∈ chunk, item.line? = none → R item (unsendable item)) :
    List.Forall₂ R chunk (resultsFrom result position chunk) := by
  induction chunk generalizing position with
  | nil => exact .nil
  | cons item chunk ih =>
    have hlocals : ∀ item ∈ chunk, item.line? = none → R item (unsendable item) :=
      fun i hi => hlocal i (List.mem_cons_of_mem _ hi)
    unfold resultsFrom
    split
    · rename_i hline
      obtain ⟨value, hvalue⟩ := Option.isSome_iff_exists.mp hline
      refine .cons (hsent [] item chunk rfl hline) (ih ?_ hlocals)
      rintro before item' after rfl hline'
      have hrest := hsent (item :: before) item' after rfl hline'
      rwa [lines_cons hvalue, List.length_cons, Nat.add_comm (lines before).length,
        ← Nat.add_assoc] at hrest
    · rename_i hnone
      have hnone : item.line? = none := by simpa using hnone
      refine .cons (hlocal item List.mem_cons_self hnone) (ih ?_ hlocals)
      rintro before item' after rfl hline'
      have hrest := hsent (item :: before) item' after rfl hline'
      rwa [show lines (item :: before) = lines before from List.filterMap_cons_none hnone] at hrest

theorem line?_of_unsent (h : lines chunk = []) {item : BulkItem} (hi : item ∈ chunk) :
    item.line? = none :=
  List.filterMap_eq_nil_iff.mp h item hi

theorem chunkResults_unsent (h : lines chunk = []) (answer : Except Failure Response) :
    chunkResults chunk answer = chunk.map unsendable := by
  have hlocal : List.Forall₂ (fun item b => b = unsendable item) chunk
      (chunkResults chunk answer) := by
    refine forall₂_resultsFrom ?_ fun _ _ _ => rfl
    rintro before item after rfl hline
    rw [line?_of_unsent h (by simp)] at hline
    cases hline
  rw [← map_eq_of_forall₂ (g := id) hlocal, List.map_id]

theorem forall₂_results {chunks : List (List BulkItem)} {answers : List (Except Failure Response)}
    (hlen : answers.length = chunks.length)
    (h : ∀ (j : Nat) chunk answer, chunks[j]? = some chunk → answers[j]? = some answer →
      List.Forall₂ R chunk (chunkResults chunk answer)) :
    List.Forall₂ R chunks.flatten (List.zipWith chunkResults chunks answers).flatten :=
  List.rel_flatten (forall₂_zipWith_getElem? hlen h)

end Results

end CatalogClient.Bulk
