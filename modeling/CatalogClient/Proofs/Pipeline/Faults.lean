import CatalogClient.Proofs.Pipeline.Blame
import CatalogClient.Proofs.Pipeline.Completion
import CatalogClient.Proofs.Pipeline.Quota
/-!
What can end all tasks at once: a slot whose period reaches beyond the clock, a token that expires
beyond the calendar, or more attempts than can be counted. Where none of these happens, all tasks come
to their ends.
-/

namespace CatalogClient

open Schedule Traffic

namespace Limiter

theorem evict_error {period : Span} {now : Instant} {gs : List Instant} {fault : Fault}
    (h : evict period now gs = .error fault) :
    ∃ g ∈ gs, Instant.horizon ≤ g.nanos + period.nanos := by
  induction gs with
  | nil => cases h
  | cons g gs ih =>
    simp only [evict, Instant.add?] at h
    split at h
    · rename_i hnone
      split at hnone
      · cases hnone
      · rename_i hlate
        exact ⟨g, List.mem_cons_self, Nat.le_of_not_lt hlate⟩
    · split at h
      · obtain ⟨g', hg', hlate⟩ := ih h
        exact ⟨g', List.mem_cons_of_mem _ hg', hlate⟩
      · cases h

theorem windowWait_error {q : Quota} {now : Instant} {gs : List Instant} {fault : Fault}
    (h : windowWait q now gs = .error fault) :
    ∃ g ∈ gs, Instant.horizon ≤ g.nanos + q.period.nanos := by
  unfold windowWait at h
  split at h
  · cases h
  · split at h
    · cases h
    · rename_i g _ _
      simp only [Instant.add?] at h
      split at h
      · rename_i hnone
        split at hnone
        · cases hnone
        · rename_i hlate
          exact ⟨g, List.mem_cons_self, Nat.le_of_not_lt hlate⟩
      · cases h

theorem tryGrant_error {l : Limiter} {now : Instant} {fault : Fault}
    (h : l.tryGrant now = .error fault) :
    ∃ g ∈ l.grants, Instant.horizon ≤ g.nanos + l.quota.period.nanos := by
  simp only [tryGrant] at h
  split at h
  · cases h
  · cases hk : evict l.quota.period now l.grants with
    | error fault' => exact evict_error hk
    | ok kept =>
      obtain ⟨old, hgs, -, -⟩ := evict_ok hk
      rw [hk] at h
      simp only [bind, Except.bind] at h
      split at h
      · cases h
      · cases hw : windowWait l.quota now kept with
        | error fault' =>
          obtain ⟨g, hg, hlate⟩ := windowWait_error hw
          exact ⟨g, hgs ▸ List.mem_append_right _ hg, hlate⟩
        | ok wait =>
          rw [hw] at h
          cases h

end Limiter

theorem RetryState.attempts_ok (s : RetryState) (h : s.retries + 2 < Width.beyond32) :
    s.attempts = .ok (s.retries + 1 + if s.refreshed then 1 else 0) := by
  unfold attempts
  refine if_pos ?_
  split <;> omega

namespace Task

variable {σ : Type} {p : Peer σ} {c : Setup} {w : World σ} {t : Task} {fault : Fault}

theorem ask_error (h : t.ask w = .error fault) : w.limiter.tryGrant w.now = .error fault := by
  unfold ask at h
  split at h
  · rename_i hl
    cases h
    exact hl
  · cases h
  · split at h <;> cases h

theorem obtain_ne_error (w : World σ) (t : Task) (result : Except Failure Credential)
    (fault : Fault) : t.obtain w result ≠ .error fault := by
  rw [obtain_eq]
  exact fun h => by cases h

theorem conclude_ne_error (w : World σ) (t : Task) (result : Except Failure Credential)
    (fault : Fault) : t.conclude w result ≠ .error fault := by
  rw [conclude_eq]
  exact fun h => by cases h

theorem enter_ne_error (c : Setup) (w : World σ) (t : Task) (observed : Nat) (fault : Fault) :
    t.enter c w observed ≠ .error fault := by
  unfold enter
  intro h
  split at h
  · cases h
  · split at h
    · exact obtain_ne_error _ t _ fault h
    · split at h
      · exact obtain_ne_error _ t _ fault h
      · cases h

theorem exchangeFailed_ne_error (p : Peer σ) (c : Setup) (w : World σ) (t : Task) (r : Refresh)
    (f : Failure) (fault : Fault) : t.exchangeFailed p c w r f ≠ .error fault := by
  unfold exchangeFailed
  intro h
  split at h
  · cases h
  · split at h
    · cases h
    · exact conclude_ne_error _ t _ fault h

theorem decide_ne_error (p : Peer σ) (c : Setup) (w : World σ) (t : Task) (credential : Credential)
    (attempt : Nat) (sent : Instant) (answer : Except Failure Response) (fault : Fault) :
    t.decide p c w credential attempt sent answer ≠ .error fault := by
  by_cases hg : ∃ r url, t.goal = .call r url
  · obtain ⟨r, url, hg⟩ := hg
    rw [decide_eq hg]
    unfold heed
    intro h
    split at h
    · cases h
    · cases h
    · split at h <;> cases h
  · unfold decide
    intro h
    split at h
    · rename_i r url he
      exact hg ⟨r, url, he⟩
    · cases h

theorem step_error (h : t.step p c w = .error fault) :
    w.limiter.tryGrant w.now = .error fault ∨
    (∃ r wake token, t.stage = .awaitingToken r wake (.ok token) ∧
      Credential.issued token w.date = .error fault) ∨
    t.retry.attempts = .error fault := by
  unfold step at h
  split at h
  · split at h
    · cases h
    · exact .inl (ask_error h)
  · split at h
    · exact .inl (ask_error h)
    · cases h
  · unfold seek at h
    split at h
    · exact absurd h (obtain_ne_error _ t _ fault)
    · cases h
  · exact absurd h (enter_ne_error c w t _ fault)
  · cases h
  · rename_i r wake answer hs
    split at h
    · unfold issue at h
      cases answer with
      | error f => exact absurd h (exchangeFailed_ne_error p c _ t r f fault)
      | ok token =>
        simp only at h
        split at h
        · exact absurd h (conclude_ne_error _ t _ fault)
        · rename_i hi
          cases h
          exact .inr (.inl ⟨r, wake, token, hs, hi⟩)
    · cases h
  · split at h
    · cases h
    · cases h
  · unfold send at h
    split at h
    · split at h
      · rename_i hn
        cases h
        exact .inr (.inr hn)
      · cases h
    · cases h
  · split at h
    · exact absurd h (decide_ne_error p c w t _ _ _ _ fault)
    · cases h
  · split at h
    · exact .inl (ask_error h)
    · cases h
  · cases h

end Task

namespace Schedule

variable {σ : Type} {p : Peer σ} {c : Setup}

theorem advance_date {fuel : Nat} {w w' : World σ} {t t' : Task} {woken woken' : List Nat}
    (h : advance p c fuel w t woken = .ok (w', t', woken')) : w'.date = w.date := by
  induction fuel generalizing w t woken with
  | zero =>
    cases h
    rfl
  | succ fuel ih =>
    unfold advance at h
    split at h
    · cases h
    · cases h
      rfl
    · rename_i w₁ t₁ hstep
      exact (ih h).trans (Task.step_move hstep).date_eq

theorem advance_date_fault {fuel : Nat} {w w' : World σ} {t : Task} {woken : List Nat}
    {fault : Fault} (h : advance p c fuel w t woken = .error (w', fault)) : w'.date = w.date := by
  induction fuel generalizing w t woken with
  | zero => cases h
  | succ fuel ih =>
    unfold advance at h
    split at h
    · cases h
      rfl
    · cases h
    · rename_i w₁ t₁ hstep
      exact (ih h).trans (Task.step_move hstep).date_eq

theorem commence_date (s : Schedule σ) (orders : List Order) :
    (s.commence orders).world.date = s.world.date := by
  induction orders generalizing s with
  | nil => rfl
  | cons o orders ih =>
    rw [commence_cons]
    split
    · exact ih (s.join o)
    · rfl

theorem checkDeadline_date {w w' : World σ} {t t' : Task} {freed : List Nat}
    (h : checkDeadline w t = (w', t', freed)) : w'.date = w.date := by
  unfold checkDeadline at h
  split at h
  · cases h
    rfl
  · cases h
    rfl

theorem Turn.date_eq {fuel : Nat} {s s' : Schedule σ} (h : Turn p c fuel s s') :
    s'.world.date = s.world.date := by
  cases h with
  | skip hr hf => rfl
  | poll hr hf hp =>
    obtain ⟨w₁, t₁, woken, w₂, t₂, freed, ha, hc, rfl⟩ := poll_ok hp
    rw [commence_date]
    exact (checkDeadline_date hc).trans (advance_date ha)
  | elapse hr ht => rfl

theorem run_date_fault {fuel : Nat} {s : Schedule σ} {w : World σ} {fault : Fault}
    (h : s.run p c fuel = .error (w, fault)) : w.date = s.world.date := by
  induction fuel generalizing s with
  | zero => cases h
  | succ fuel ih =>
    rcases run_error h with ⟨i, ready, t, hr, hf, ha⟩ | ⟨s₁, hturn, h⟩
    · exact advance_date_fault ha
    · exact (ih h).trans hturn.date_eq

theorem run_date {fuel : Nat} {s s' : Schedule σ} (h : s.run p c fuel = .ok s') :
    s'.world.date = s.world.date := by
  induction fuel generalizing s with
  | zero =>
    cases h
    rfl
  | succ fuel ih =>
    rcases run_ok h with ⟨-, -, rfl⟩ | ⟨s₁, hturn, h⟩
    · rfl
    · exact (ih h).trans hturn.date_eq

end Schedule

/-- Whatever is asked of the peer, it hands out a token that does not outlive the calendar. -/
def Peer.Issues {σ : Type} (p : Peer σ) (date : UtcTime) : Prop :=
  ∀ g peer, ∃ token credential, (p.exchange g peer).1.answer = .ok token ∧
    Credential.issued token date = .ok credential

namespace Traffic

variable {σ : Type} {p : Peer σ} {c : Setup}

theorem retries_kept : Kept p c (fun _ => True)
    (fun _ t => t.retry.retries ≤ c.policy.maxRetries) := by
  refine Kept.ofTask ?_ ?_ ?_
  · exact fun w goal deadline => Nat.zero_le _
  · intro w t w' t' h hm
    cases hm with
    | slow hs hw hg hf hc hr hd => exact hr
    | retry hs hw hg hf hc hr hd => exact hr
    | _ => exact h
  · exact fun w t h _ _ => h

end Traffic

namespace World

variable {σ : Type} {p : Peer σ} {c : Setup} {w w' : World σ} {window : Nat} {orders : List Order}

theorem perform_date {result : Except Fault (List Outcome)}
    (h : w.perform p c window orders = (w', result)) : w'.date = w.date := by
  unfold perform at h
  split at h
  · rename_i w₁ fault' hrun
    cases h
    exact (run_date_fault hrun).trans (commence_date _ orders)
  · rename_i s hrun
    cases h
    exact (run_date hrun).trans (commence_date _ orders)

/-- What there is no reckoning with: a token that outlives the calendar, more attempts than can be
counted, or a period that reaches beyond the clock. -/
inductive Overrun (p : Peer σ) (c : Setup) (q : Quota) (w w' : World σ) : Prop
  | token {g : Grant} {peer : σ} {token : TokenGrant} {fault : Fault}
    (h : (p.exchange g peer).1.answer = .ok token)
    (hf : Credential.issued token w.date = .error fault)
  | attempts (h : Width.beyond32 ≤ c.policy.maxRetries + 2)
  | clock (h : Instant.horizon ≤ w'.now.nanos + q.period.nanos)

/-- Where the tasks of the orders can count their attempts, a fault comes of a token that outlives the
calendar, or of a period that reaches beyond the clock. -/
theorem perform_fault {q : Quota} {date : UtcTime} {credential : Option Credential} {peer : σ}
    (hr : Reaches p c ⟨.start date (.ofQuota q) credential peer, []⟩ ⟨w, []⟩) {fault : Fault}
    (h : w.perform p c window orders = (w', .error fault))
    (hcount : ∀ w₁ ts, Reaches p c ⟨w, []⟩ ⟨w₁, ts⟩ → ∀ t ∈ ts, t.goal ∈ orders.map (·.goal) →
      t.retry.attempts ≠ .error fault) :
    (∃ g peer token fault', (p.exchange g peer).1.answer = .ok token ∧
        Credential.issued token w.date = .error fault') ∨
      Instant.horizon ≤ w'.now.nanos + q.period.nanos := by
  have hdate := perform_date h
  obtain ⟨w₁, ts, hrun, ⟨t, ht, hstep⟩, hbegun, rfl⟩ :=
    perform_error h ((Idle.start date q credential peer).of_reaches hr)
  have hall := hr.trans hrun
  rcases Task.step_error hstep with hl | ⟨r, wake, token, hs, hi⟩ | ha
  · obtain ⟨hpaced, -⟩ := (paced_kept (q := q)).reaches hall (.start date credential peer)
      (by simp)
    obtain ⟨g, hg, hlate⟩ := Limiter.tryGrant_error hl
    obtain ⟨hist, hk, -⟩ := hpaced.known
    obtain ⟨old, hgrants, -⟩ := hk.evicted
    have hmem : g ∈ LimiterHistory.grants hist := hgrants ▸ List.mem_append_right _ hg
    obtain ⟨x, hx, hxg⟩ := List.mem_filterMap.mp hmem
    have hpast : g ≤ w₁.now := by
      have hxp := hk.past x hx
      split at hxg
      · cases hxg
        exact hxp
      · cases hxg
    rw [hpaced.quota] at hlate
    exact .inr (Nat.le_trans hlate (Nat.add_le_add_right hpast _))
  · obtain ⟨-, hexplained⟩ := explained_kept.reaches hall (accounted_start p _ _ _ _) (by simp)
    obtain ⟨g, peer', hanswer⟩ := (hexplained t ht).token r wake _ hs
    have hd : w₁.date = w.date := hdate
    exact .inl ⟨g, peer', token, fault, hanswer, hd ▸ hi⟩
  · exact absurd ha (hcount w₁ ts hrun t ht (hbegun.goals t ht))

theorem perform_overrun {q : Quota} {date : UtcTime} {credential : Option Credential} {peer : σ}
    (hr : Reaches p c ⟨.start date (.ofQuota q) credential peer, []⟩ ⟨w, []⟩) {fault : Fault}
    (h : w.perform p c window orders = (w', .error fault)) : Overrun p c q w w' := by
  by_cases hmany : Width.beyond32 ≤ c.policy.maxRetries + 2
  · exact .attempts hmany
  · have hcases := perform_fault hr h <| by
      intro w₁ ts hrun t ht _ ha
      obtain ⟨-, hretries⟩ := (retries_kept (p := p) (c := c)).reaches (hr.trans hrun) trivial
        (by simp)
      have hle := hretries t ht
      rw [t.retry.attempts_ok (by omega)] at ha
      cases ha
    rcases hcases with ⟨g, peer', token, fault', hanswer, hi⟩ | hlate
    · exact .token hanswer hi
    · exact .clock hlate

/-- Tasks are carried out to their ends where every refresh ends well, the attempts of a call can be
counted, and a period from the last instant on is within the horizon of the clock. -/
theorem perform_returns {q : Quota} {date : UtcTime} {credential : Option Credential} {peer : σ}
    (hr : Reaches p c ⟨.start date (.ofQuota q) credential peer, []⟩ ⟨w, []⟩)
    (hx : p.Issues w.date) (hm : c.policy.maxRetries + 2 < Width.beyond32)
    {result : Except Fault (List Outcome)} (h : w.perform p c window orders = (w', result))
    (hclock : w'.now.nanos + q.period.nanos < Instant.horizon) :
    ∃ outcomes, result = .ok outcomes := by
  cases result with
  | ok outcomes => exact ⟨outcomes, rfl⟩
  | error fault =>
    exfalso
    cases perform_overrun hr h with
    | @token g peer' token fault' hanswer hi =>
      obtain ⟨token', credential', htoken, hissued⟩ := hx g peer'
      cases htoken.symm.trans hanswer
      cases hissued.symm.trans hi
    | attempts hmany => exact Nat.not_lt_of_le hmany hm
    | clock hlate => exact Nat.not_lt_of_le hlate hclock

end World

end CatalogClient
