import CatalogClient.Proofs.Pipeline.Blame
/-!
What keeps calls from the answers of the service: an exchange that failed, a deadline that has passed, or a
goal that leads nowhere. Every other failure of a call is what the service answered to one of its attempts.
-/

namespace CatalogClient

def Peer.Serves {σ : Type} (p : Peer σ) (c : Setup) (r : Request) (url : Url) : Prop :=
  ∀ authorization peer, ∃ a,
    (p.send (r.attempt url authorization c.timeout) peer).1.answer = .ok a ∧ a.isSuccess

namespace Traffic

variable {σ : Type} {p : Peer σ} {c : Setup}

/-- What keeps a call from an answer that the service would have given to it. -/
inductive Hindrance (w : World σ) (t : Task) (f : Failure) : Prop
  | exchange (h : w.Reported f)
  | deadline {time : Instant} {elapsed : Span} (hd : t.deadline.isSome)
    (hj : ⟨time, .expired t.id⟩ ∈ w.journal) (hf : f = .timeout elapsed)
  | stray (h : t.goal = .stray f)

theorem Hindrance.mono {w w' : World σ} {t : Task} {f : Failure} (h : Hindrance w t f)
    {es : List Entry} (hj : w'.journal = es ++ w.journal) : Hindrance w' t f := by
  cases h with
  | exchange h => exact .exchange (h.mono hj)
  | deadline hd he hf => exact .deadline hd (hj ▸ List.mem_append_right _ he) hf
  | stray h => exact .stray h

/-- The failure is what an answer to an attempt of the call comes to. -/
def Denied (p : Peer σ) (c : Setup) (t : Task) (f : Failure) : Prop :=
  ∃ r url authorization peer elapsed n, t.goal = .call r url ∧ RetryPolicy.outcome
    ((p.send (r.attempt url authorization c.timeout) peer).1.answer.map (.stamped elapsed n)) r.path =
      .error f

/-- A call fails only where it was hindered, or with what the service answered. -/
def Hindered (p : Peer σ) (c : Setup) (w : World σ) (t : Task) : Prop :=
  ∀ f, t.stage = .done (.answer (.error f)) → Hindrance w t f ∨ Denied p c t f

theorem obtained_failed {t : Task} {result : Except Failure Credential} {f : Failure}
    (h : t.obtained result = .done (.answer (.error f))) : result = .error f := by
  obtain ⟨id, goal, started, deadline, stage, retry⟩ := t
  cases goal <;> cases result <;> cases h
  rfl

theorem admitted_not_failed (t : Task) (f : Failure) : t.admitted ≠ .done (.answer (.error f)) := by
  obtain ⟨id, goal, started, deadline, stage, retry⟩ := t
  cases goal <;> exact fun h => by cases h

theorem Tried.denied {w : World σ} {t : Task} {r : Request} {url : Url} {tries : List Try}
    (h : Tried p c r url t tries) (hg : t.goal = .call r url) {credential : Credential} {n : Nat}
    {sent wake : Instant} {answer : Except Failure Response}
    (ht : t.stage = .awaitingAnswer credential n sent wake answer) {f : Failure}
    (hf : RetryPolicy.outcome (w.received n sent answer) r.path = .error f) : Denied p c t f := by
  obtain ⟨a, rest, rfl, peer, rfl⟩ := h.awaits answer ⟨_, _, _, _, ht⟩
  obtain ⟨⟨authorization, hattempt⟩, -⟩ := h.own _ List.mem_cons_self
  have hattempt : a = r.attempt url authorization c.timeout := hattempt
  subst hattempt
  exact ⟨r, url, authorization, peer, _, n, hg, hf⟩

theorem Denied.goal {t t' : Task} {f : Failure} (h : Denied p c t f) (hg : t'.goal = t.goal) :
    Denied p c t' f := by
  obtain ⟨r, url, authorization, peer, elapsed, n, hcall, hf⟩ := h
  exact ⟨r, url, authorization, peer, elapsed, n, hg.trans hcall, hf⟩

theorem not_denied_of_serves {t : Task} (hserves : ∀ r url, t.goal = .call r url → p.Serves c r url)
    (f : Failure) : ¬ Denied p c t f := by
  rintro ⟨r, url, authorization, peer, elapsed, n, hg, hf⟩
  obtain ⟨a, ha, hok⟩ := hserves r url hg authorization peer
  rw [ha] at hf
  rcases RetryPolicy.outcome_error hf with herror | ⟨b, hb, hno, -⟩
  · cases herror
  · cases hb
    have hok : (a.stamped elapsed n).isSuccess = true := hok
    rw [hok] at hno
    cases hno

theorem Tried.never_fails {w : World σ} {t : Task} {r : Request} {url : Url} {tries : List Try}
    (h : Tried p c r url t tries) (hg : t.goal = .call r url) (hs : p.Serves c r url)
    {credential : Credential} {n : Nat} {sent wake : Instant} {answer : Except Failure Response}
    (ht : t.stage = .awaitingAnswer credential n sent wake answer) (f : Failure) :
    RetryPolicy.outcome (w.received n sent answer) r.path ≠ .error f := by
  intro hf
  refine not_denied_of_serves ?_ f (h.denied hg ht hf)
  intro r' url' hg'
  cases hg.symm.trans hg'
  exact hs

theorem Hindered.move {w w' : World σ} {t t' : Task} (ha : Accounted p w)
    (ht : ∀ r url, t.goal = .call r url → Tried p c r url t (Journal.tries t.id w.journal))
    (hm : t.Move p c w w' t') : Hindered p c w' t' := by
  intro f hf
  obtain ⟨events, hj, -⟩ := hm.journal_eq
  cases hm with
  | stray hs hg =>
    cases hf
    exact .inl (.stray hg)
  | granted => exact absurd hf (admitted_not_failed t f)
  | found | shared | issued =>
    have hok := obtained_failed hf
    cases hok
  | sharedFailure hs hh hu hg hlast =>
    cases obtained_failed hf
    exact .inl (.exchange ((ha.vault f hlast).mono hj))
  | refreshFailed hs hw hr hfall =>
    cases obtained_failed hf
    refine .inl (.exchange ⟨w.now, t.id, ?_⟩)
    exact List.mem_cons_of_mem _ (List.mem_cons_of_mem _ List.mem_cons_self)
  | fail hs hw hg hout hd =>
    cases hf
    exact .inr (((ht _ _ hg).denied hg hs hout).goal rfl)
  | slow | retry =>
    simp only at hf
    split at hf <;> cases hf
  | _ => cases hf

theorem hindered_kept : Kept p c (fun w => Accounted p w ∧ w.Recorded) (fun w t =>
    (Explained p w t ∧ t.id < w.tasks ∧
      ∀ r url, t.goal = .call r url → Tried p c r url t (Journal.tries t.id w.journal)) ∧
    Hindered p c w t) := by
  refine (explained_kept.and tried_kept).withJournal ?_ ?_ ?_ ?_
  · exact fun w w' t es hj h f hf => (h f hf).imp_left (·.mono hj)
  · intro w goal deadline f hf
    cases goal <;> cases hf
  · exact fun w t w' t' hi hj hm => Hindered.move hi.1 hj.2.2 hm
  · intro w t hd f hf
    cases hf
    refine .inl (.deadline ?_ List.mem_cons_self rfl)
    cases hsome : t.deadline with
    | none =>
      rw [hsome] at hd
      cases hd
    | some time => exact hsome ▸ rfl

end Traffic

end CatalogClient
