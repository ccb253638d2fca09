import CatalogClient.Proofs.Paging.ByHand
import CatalogClient.Proofs.Paging.Envelope
import CatalogClient.Proofs.Paging.Numbers
/-!
Where a page leads that has been read. It leads to a later page, along its links, or nowhere, and the one page without
an answer is the full one without links that bears the greatest number.
-/

namespace CatalogClient

open Json.Decode

namespace Page

variable {α : Type} {page : Page α} {cursor : Option Cursor} {number limit : Nat} {key : String}

theorem nextRequest_eq (page : Page α) : page.nextRequest = page.nextCursor.map (·.map page.requestAt) := by
  rw [nextRequest]
  cases page.nextCursor <;> rfl

theorem hasNext_eq (page : Page α) : page.hasNext = page.nextCursor.map (·.isSome) := by
  rw [hasNext]
  cases page.nextCursor <;> rfl

theorem nextCursor_error {fault : Fault} : page.nextCursor = .error fault ↔ fault = .pageNumber ∧ page.AtLimit := by
  rw [← nextRequest_error, nextRequest_eq]
  cases page.nextCursor <;> simp [Except.map]

theorem queryNumber?_lt {n : Nat} (h : page.queryNumber? key = some n) : n < Width.beyond32 := numberIn?_lt h

theorem number_lt (h : ∀ n ∈ page.currentPage, n < Width.beyond32) : page.number < Width.beyond32 := by
  rw [number]
  cases hnumber : page.currentPage.or (page.queryNumber? "page") with
  | none => decide
  | some n =>
    obtain hcurrent | ⟨-, hquery⟩ := Option.or_eq_some_iff.mp hnumber
    · exact h n hcurrent
    · exact queryNumber?_lt hquery

theorem number_of_current {n : Nat} (h : page.currentPage = some n) : page.number = n := by
  rw [number, h]
  rfl

theorem nextCursor_page (h : page.nextCursor = .ok (some (.page number limit))) :
    number = page.number + 1 ∧ number < Width.beyond32 := by
  unfold nextCursor at h
  split at h
  · obtain ⟨url, -, hurl⟩ := Option.map_eq_some_iff.mp (Except.ok.inj h)
    cases hurl
  · split at h
    · cases h
    · split at h
      · rename_i hnumber
        cases h
        exact ⟨rfl, hnumber⟩
      · cases h

/-- All that is asked of a page has an answer, and the answers agree. -/
structure Leads (page : Page α) (cursor : Option Cursor) : Prop where
  nextCursor : page.nextCursor = .ok cursor
  hasNext : page.hasNext = .ok cursor.isSome
  nextRequest : page.nextRequest = .ok (cursor.map page.requestAt)
  walk : Walk.ofPage page = .ok (.within page.items (cursor.map page.requestAt))

theorem Leads.of_nextCursor (h : page.nextCursor = .ok cursor) : page.Leads cursor := by
  have hrequest : page.nextRequest = .ok (cursor.map page.requestAt) := by rw [nextRequest_eq, h]; rfl
  exact ⟨h, by rw [hasNext_eq, h]; rfl, hrequest, by rw [Walk.ofPage, hrequest]; rfl⟩

/-- The page behind one that is counted on has a later number than that one, by which it is asked for. -/
theorem Leads.later (h : page.Leads (some (.page number limit))) :
    page.number < number ∧ number < Width.beyond32 ∧
      (page.requestAt (.page number limit)).number? "page" = some number := by
  obtain ⟨hnumber, hbound⟩ := nextCursor_page h.nextCursor
  exact ⟨by omega, hbound, Request.number?_turned_page hbound⟩

theorem AtLimit.number_eq (h : page.AtLimit) (hnumber : page.number < Width.beyond32) :
    page.number = Width.beyond32 - 1 := by
  have hlimit := h.number
  omega

end Page

theorem Response.read_of_decode {α : Type} {f : Json.Decoder α} {a : Response} {x : α} (h : a.decode f = .ok x) :
    ∃ depth d, f depth d = some x := by
  unfold decode at h
  split at h
  · split at h
    · rename_i hread
      cases h
      exact ⟨_, _, hread⟩
    · cases h
  · split at h
    · rename_i hread
      cases h
      obtain ⟨d, -, hd⟩ := Option.bind_eq_some_iff.mp hread
      exact ⟨_, d, hd⟩
    · cases h

namespace Page

variable {α : Type} {f : Json.Decoder α} {a : Response} {e : Envelope α}

/-- A page that was read leads on without a fault, and by number only to a later page, exactly if it is not the full
page without links that bears the greatest number of 32 bits. -/
theorem leads_unless_atLimit (h : a.decode (Envelope.decoder f) = .ok e) (r : Request) :
    (¬ (ofEnvelope e r).AtLimit → ∃ cursor, (ofEnvelope e r).Leads cursor ∧
      ∀ number limit, cursor = some (.page number limit) →
        (ofEnvelope e r).number < number ∧ (∀ current ∈ e.currentPage, current < number) ∧
        number < Width.beyond32 ∧
        ((ofEnvelope e r).requestAt (.page number limit)).number? "page" = some number) ∧
    ((ofEnvelope e r).AtLimit → (ofEnvelope e r).number = Width.beyond32 - 1 ∧
      (ofEnvelope e r).nextCursor = .error .pageNumber ∧ (ofEnvelope e r).hasNext = .error .pageNumber ∧
      (ofEnvelope e r).nextRequest = .error .pageNumber ∧ Walk.ofPage (ofEnvelope e r) = .error .pageNumber) := by
  obtain ⟨depth, d, hd⟩ := Response.read_of_decode h
  have hcurrent : ∀ n ∈ (ofEnvelope e r).currentPage, n < Width.beyond32 := (Envelope.decoder_eq_some hd).2.1
  refine ⟨fun hlimit => ?_, fun hlimit => ?_⟩
  · cases hcursor : (ofEnvelope e r).nextCursor with
    | error fault => exact absurd (nextCursor_error.mp hcursor).2 hlimit
    | ok cursor =>
      refine ⟨cursor, .of_nextCursor hcursor, ?_⟩
      rintro number limit rfl
      obtain ⟨hlater, hbound, hasked⟩ := (Leads.of_nextCursor hcursor).later
      refine ⟨hlater, fun current hc => ?_, hbound, hasked⟩
      have hnumber : (ofEnvelope e r).number = current := number_of_current hc
      exact hnumber ▸ hlater
  · have hcursor := nextCursor_error.mpr ⟨rfl, hlimit⟩
    have hrequest : (ofEnvelope e r).nextRequest = .error .pageNumber := by rw [nextRequest_eq, hcursor]; rfl
    exact ⟨hlimit.number_eq (number_lt hcurrent), hcursor, by rw [hasNext_eq, hcursor]; rfl, hrequest,
      by rw [Walk.ofPage, hrequest]; rfl⟩

/-- The answer with a page of one item that bears a number, and has no links. -/
def numbered (n : Nat) : Response :=
  .make 200 [] (Text.Utf8.encode (Envelope.toJson ⟨[], some n, none, [.ofNat 1]⟩).render)

/-- The last full page that can be counted on. -/
theorem leads_unless_atLimit_last : ∃ e,
    (numbered 4294967294).decode (Envelope.decoder json) = .ok e ∧
      (ofEnvelope e .oneByOne).Leads (some (.page 4294967295 1)) := by
  have hread : (numbered 4294967294).decode (Envelope.decoder json) =
      .ok ⟨[], some 4294967294, none, [.ofNat 1]⟩ := by
    decide +kernel
  refine ⟨_, hread, ?_⟩
  obtain ⟨cursor, hleads, -⟩ := (leads_unless_atLimit hread .oneByOne).1 fun h => absurd h.number (by decide)
  have hcursor : (ofEnvelope ⟨[], some 4294967294, none, [Json.ofNat 1]⟩ .oneByOne).nextCursor =
      .ok (some (.page 4294967295 1)) := by
    decide +kernel
  cases hcursor.symm.trans hleads.nextCursor
  exact hleads

/-- A full page that bears the greatest number is read, and then there is no answer to where it leads. -/
theorem greatest_number_faults : ∃ e,
    (numbered 4294967295).decode (Envelope.decoder json) = .ok e ∧
      (ofEnvelope e .oneByOne).nextCursor = .error .pageNumber ∧
      (ofEnvelope e .oneByOne).hasNext = .error .pageNumber ∧
      (ofEnvelope e .oneByOne).nextRequest = .error .pageNumber := by
  refine ⟨⟨[], some 4294967295, none, [.ofNat 1]⟩, ?_, ?_, ?_, ?_⟩ <;> decide +kernel

end Page

end CatalogClient
