import CatalogClient.Pipeline.Task
import CatalogClient.Proofs.Bind
/-!
All that one step of a task can do, by the stage in which the task stands. What a step keeps is shown
by cases on these moves.
-/

namespace CatalogClient

namespace RetryPolicy

theorem cause?_ne_credentialRejected (p : RetryPolicy) (r : Request) (f : Failure) :
    p.cause? r f ≠ some .credentialRejected := by
  cases f with
  | network m timedOut requestSent =>
    simp only [cause?]
    split <;> simp
  | api status m =>
    simp only [cause?]
    split <;> simp
  | _ => simp [cause?]

theorem onFailure_of_budget (p : RetryPolicy) {f : Failure} (r : Request) (s : RetryState)
    (draw : Nat) (hf : ∀ status m, f ≠ .authentication status m) :
    p.onFailure f r s draw = match p.cause? r f with
      | none => (.fail f, s)
      | some cause =>
        if p.maxRetries ≤ s.retries then (.fail f, s)
        else (.retry (f.retryAfter?.getD (p.backoff.delay s.retries draw)) cause f,
          { s with retries := s.retries + 1 }) := by
  cases f with
  | authentication status m => exact absurd rfl (hf status m)
  | _ => rfl

theorem onFailure_cases (p : RetryPolicy) (f : Failure) (r : Request) (s : RetryState) (draw : Nat) :
    p.onFailure f r s draw = (.fail f, s) ∨
    (s.refreshed = false ∧ (∃ status m, f = .authentication status m) ∧
      p.onFailure f r s draw = (.retry .zero .credentialRejected f, { s with refreshed := true })) ∨
    ∃ cause, p.cause? r f = some cause ∧ s.retries < p.maxRetries ∧ p.onFailure f r s draw =
      (.retry (f.retryAfter?.getD (p.backoff.delay s.retries draw)) cause f,
        { s with retries := s.retries + 1 }) := by
  by_cases ha : ∃ status m, f = .authentication status m
  · obtain ⟨status, m, rfl⟩ := ha
    cases hr : s.refreshed with
    | true => exact .inl (by simp [onFailure, hr])
    | false => exact .inr (.inl ⟨rfl, ⟨status, m, rfl⟩, by simp [onFailure, hr]⟩)
  · rw [p.onFailure_of_budget r s draw (fun status m h => ha ⟨status, m, h⟩)]
    cases hc : p.cause? r f with
    | none => exact .inl rfl
    | some cause =>
      by_cases hm : p.maxRetries ≤ s.retries
      · exact .inl (if_pos hm)
      · exact .inr (.inr ⟨cause, rfl, Nat.lt_of_not_le hm, if_neg hm⟩)

theorem outcome_of_success {a : Response} (h : a.isSuccess) (path : String) :
    outcome (.ok a) path = .ok a :=
  if_pos h

theorem outcome_ok {result : Except Failure Response} {path : String} {a : Response}
    (h : outcome result path = .ok a) : result = .ok a ∧ a.isSuccess := by
  obtain ⟨r, rfl, hr⟩ := except_bind_ok.mp h
  cases hs : r.isSuccess with
  | true =>
    rw [hs] at hr
    cases hr
    exact ⟨rfl, hs⟩
  | false =>
    rw [hs] at hr
    cases hr

theorem outcome_error {result : Except Failure Response} {path : String} {f : Failure}
    (h : outcome result path = .error f) :
    result = .error f ∨ ∃ a, result = .ok a ∧ a.isSuccess = false ∧ f = a.toFailure path := by
  cases result with
  | error f' => exact .inl h
  | ok a =>
    right
    cases hs : a.isSuccess with
    | true =>
      simp only [outcome, bind, Except.bind, hs] at h
      cases h
    | false =>
      simp only [outcome, bind, Except.bind, hs] at h
      cases h
      exact ⟨a, rfl, hs, rfl⟩

theorem evaluate_of_ok (p : RetryPolicy) {result : Except Failure Response} {r : Request}
    {a : Response} (h : outcome result r.path = .ok a) (s : RetryState) (draw : Nat) :
    p.evaluate result r s draw = (.succeed a, s) := by
  simp only [evaluate, h]

theorem evaluate_of_error (p : RetryPolicy) {result : Except Failure Response} {r : Request}
    {f : Failure} (h : outcome result r.path = .error f) (s : RetryState) (draw : Nat) :
    p.evaluate result r s draw = p.onFailure f r s draw := by
  simp only [evaluate, h]

end RetryPolicy

namespace World

variable {σ : Type}

def received (w : World σ) (attempt : Nat) (sent : Instant) (answer : Except Failure Response) :
    Except Failure Response :=
  answer.map fun a => { a with elapsed := w.now.since sent, attempt := attempt }

def heard (w : World σ) (p : Peer σ) (id : Nat) (result : Except Failure Response) : World σ :=
  { w.note (.answered id result) with peer := (p.draw w.peer).2 }

end World

namespace Task

variable {σ : Type}

def admitted (t : Task) : Stage :=
  match t.goal with
  | .slot => .done .slot
  | _ => .seeking

def obtained (t : Task) (result : Except Failure Credential) : Stage :=
  match t.goal, result with
  | .call .., .ok c => .sending c
  | .call .., .error f => .done (.answer (.error f))
  | _, _ => .done (.credential result)

theorem obtain_eq (w : World σ) (t : Task) (result : Except Failure Credential) :
    t.obtain w result =
      .ok (some (w.note (.obtained t.id result), { t with stage := t.obtained result })) := by
  obtain ⟨id, goal, started, deadline, stage, retry⟩ := t
  cases goal <;> cases result <;> rfl

def Asks (t : Task) (now : Instant) : Prop :=
  (t.stage = .asking ∧ ∀ f, t.goal ≠ .stray f) ∨
    ∃ wake, wake ≤ now ∧ (t.stage = .admitting wake ∨ t.stage = .pausing wake)

def Exchanges (t : Task) (now : Instant) (r : Refresh) : Prop :=
  t.stage = .exchanging r ∨ ∃ wake, wake ≤ now ∧ t.stage = .resting r wake

def concluded (w : World σ) (t : Task) (result : Except Failure Credential) : World σ :=
  (t.release ({ w with vault := w.vault.refreshed result }.note (.refreshed t.id result))).note
    (.obtained t.id result)

theorem conclude_eq (w : World σ) (t : Task) (result : Except Failure Credential) :
    t.conclude w result =
      .ok (some (t.concluded w result, { t with stage := t.obtained result })) := by
  simp only [conclude, obtain_eq, concluded]

/-- One case for each thing that a step does. -/
inductive Move (p : Peer σ) (c : Setup) (w : World σ) (t : Task) : World σ → Task → Prop
  | stray {f : Failure} (hs : t.stage = .asking) (hg : t.goal = .stray f) :
    Move p c w t w { t with stage := .done (.answer (.error f)) }
  | refused {d : Span} {l : Limiter} (ha : t.Asks w.now)
    (hl : w.limiter.tryGrant w.now = .ok (.refused d, l)) :
    Move p c w t { w with limiter := l } { t with stage := .admitting (w.now.timer d) }
  | granted {l : Limiter} (ha : t.Asks w.now)
    (hl : w.limiter.tryGrant w.now = .ok (.granted, l)) :
    Move p c w t ({ w with limiter := l }.note (.granted t.id)) { t with stage := t.admitted }
  | found {credential : Credential} (hs : t.stage = .seeking)
    (hu : w.usable? c = some credential) :
    Move p c w t (w.note (.obtained t.id (.ok credential)))
      { t with stage := t.obtained (.ok credential) }
  | lined (hs : t.stage = .seeking) (hu : w.usable? c = none) :
    Move p c w t { w with turnstile := w.turnstile.enter t.id }
      { t with stage := .queued w.vault.generation }
  | shared {observed : Nat} {credential : Credential} (hs : t.stage = .queued observed)
    (hh : w.turnstile.holder = some t.id) (hu : w.usable? c = some credential) :
    Move p c w t ((t.release w).note (.obtained t.id (.ok credential)))
      { t with stage := t.obtained (.ok credential) }
  | sharedFailure {observed : Nat} {f : Failure} (hs : t.stage = .queued observed)
    (hh : w.turnstile.holder = some t.id) (hu : w.usable? c = none)
    (hg : w.vault.generation ≠ observed) (hf : w.vault.lastFailure = some f) :
    Move p c w t ((t.release w).note (.obtained t.id (.error f)))
      { t with stage := t.obtained (.error f) }
  | refresh {observed : Nat} (hs : t.stage = .queued observed)
    (hh : w.turnstile.holder = some t.id) (hu : w.usable? c = none)
    (hg : w.vault.generation = observed ∨ w.vault.lastFailure = none) :
    Move p c w t w { t with stage := .exchanging (firstRefresh c w) }
  | exchange {r : Refresh} (he : t.Exchanges w.now r) :
    Move p c w t
      ({ w with peer := (p.exchange r.grant w.peer).2, exchanges := w.exchanges + 1 }.note
        (.exchanged t.id r.grant))
      { t with stage := .awaitingToken r (w.now.timer (p.exchange r.grant w.peer).1.latency)
                 (p.exchange r.grant w.peer).1.answer }
  | issued {r : Refresh} {wake : Instant} {token : TokenGrant} {credential : Credential}
    (hs : t.stage = .awaitingToken r wake (.ok token)) (hw : wake ≤ w.now)
    (hi : Credential.issued token w.date = .ok credential) :
    Move p c w t (t.concluded (w.note (.issued t.id (.ok token))) (.ok credential))
      { t with stage := t.obtained (.ok credential) }
  | rest {r : Refresh} {wake : Instant} {f : Failure}
    (hs : t.stage = .awaitingToken r wake (.error f)) (hw : wake ≤ w.now)
    (hf : f.isRetryable) (hr : r.retries < c.policy.maxRetries) :
    Move p c w t { w.note (.issued t.id (.error f)) with peer := (p.draw w.peer).2 }
      { t with stage := .resting { r with retries := r.retries + 1 } (w.now.timer
                 (min (f.retryAfter?.getD (c.policy.backoff.delay r.retries (p.draw w.peer).1))
                   longestPause)) }
  | fallBack {r : Refresh} {wake : Instant} {f : Failure} {grant : Grant}
    (hs : t.stage = .awaitingToken r wake (.error f)) (hw : wake ≤ w.now)
    (hf : ∃ status m, f = .authentication status m) (hr : r.fallback = some grant) :
    Move p c w t (w.note (.issued t.id (.error f))) { t with stage := .exchanging ⟨grant, 0, none⟩ }
  | refreshFailed {r : Refresh} {wake : Instant} {f : Failure}
    (hs : t.stage = .awaitingToken r wake (.error f)) (hw : wake ≤ w.now)
    (hr : ¬ (f.isRetryable ∧ r.retries < c.policy.maxRetries))
    (hf : r.fallback = none ∨ ∀ status m, f ≠ .authentication status m) :
    Move p c w t (t.concluded (w.note (.issued t.id (.error f))) (.error f))
      { t with stage := t.obtained (.error f) }
  | send {credential : Credential} {r : Request} {url : Url} {attempt : Nat}
    (hs : t.stage = .sending credential) (hg : t.goal = .call r url)
    (ha : t.retry.attempts = .ok attempt) :
    Move p c w t
      ({ w with peer := (p.send (r.attempt url credential.authorization c.timeout) w.peer).2 }.note
        (.sent t.id (r.attempt url credential.authorization c.timeout)))
      { t with stage := .awaitingAnswer credential attempt w.now
                 (w.now.timer (p.send (r.attempt url credential.authorization c.timeout) w.peer).1.latency)
                 (p.send (r.attempt url credential.authorization c.timeout) w.peer).1.answer }
  | succeed {credential : Credential} {attempt : Nat} {sent wake : Instant}
    {answer : Except Failure Response} {r : Request} {url : Url} {a : Response}
    (hs : t.stage = .awaitingAnswer credential attempt sent wake answer) (hw : wake ≤ w.now)
    (hg : t.goal = .call r url) (ha : w.received attempt sent answer = .ok a)
    (hok : a.isSuccess) :
    Move p c w t (w.heard p t.id (.ok a)) { t with stage := .done (.answer (.ok a)) }
  | fail {credential : Credential} {attempt : Nat} {sent wake : Instant}
    {answer : Except Failure Response} {r : Request} {url : Url} {f : Failure}
    (hs : t.stage = .awaitingAnswer credential attempt sent wake answer) (hw : wake ≤ w.now)
    (hg : t.goal = .call r url)
    (hf : RetryPolicy.outcome (w.received attempt sent answer) r.path = .error f)
    (hd : c.policy.onFailure f r t.retry (p.draw w.peer).1 = (.fail f, t.retry)) :
    Move p c w t (w.heard p t.id (w.received attempt sent answer))
      { t with stage := .done (.answer (.error f)) }
  | reject {credential : Credential} {attempt : Nat} {sent wake : Instant}
    {answer : Except Failure Response} {r : Request} {url : Url} {f : Failure}
    (hs : t.stage = .awaitingAnswer credential attempt sent wake answer) (hw : wake ≤ w.now)
    (hg : t.goal = .call r url)
    (hf : RetryPolicy.outcome (w.received attempt sent answer) r.path = .error f)
    (ha : ∃ status m, f = .authentication status m) (hr : t.retry.refreshed = false) :
    Move p c w t
      ((w.heard p t.id (w.received attempt sent answer)).invalidate credential.accessToken)
      { t with stage := .asking, retry := { t.retry with refreshed := true } }
  | slow {credential : Credential} {attempt : Nat} {sent wake : Instant}
    {answer : Except Failure Response} {r : Request} {url : Url} {f : Failure} {delay : Span}
    (hs : t.stage = .awaitingAnswer credential attempt sent wake answer) (hw : wake ≤ w.now)
    (hg : t.goal = .call r url)
    (hf : RetryPolicy.outcome (w.received attempt sent answer) r.path = .error f)
    (hc : c.policy.cause? r f = some .rateLimited) (hr : t.retry.retries < c.policy.maxRetries)
    (hd : delay = min (f.retryAfter?.getD
      (c.policy.backoff.delay t.retry.retries (p.draw w.peer).1)) longestPause) :
    Move p c w t
      ({ w.heard p t.id (w.received attempt sent answer) with
          limiter := w.limiter.penalize w.now delay }.note (.penalized t.id delay))
      { t with stage := if delay.isZero then .asking else .pausing (w.now.timer delay)
               retry := { t.retry with retries := t.retry.retries + 1 } }
  | retry {credential : Credential} {attempt : Nat} {sent wake : Instant}
    {answer : Except Failure Response} {r : Request} {url : Url} {f : Failure} {delay : Span}
    (hs : t.stage = .awaitingAnswer credential attempt sent wake answer) (hw : wake ≤ w.now)
    (hg : t.goal = .call r url)
    (hf : RetryPolicy.outcome (w.received attempt sent answer) r.path = .error f)
    (hc : c.policy.cause? r f = some .network ∨ c.policy.cause? r f = some .server)
    (hr : t.retry.retries < c.policy.maxRetries)
    (hd : delay = min (f.retryAfter?.getD
      (c.policy.backoff.delay t.retry.retries (p.draw w.peer).1)) longestPause) :
    Move p c w t (w.heard p t.id (w.received attempt sent answer))
      { t with stage := if delay.isZero then .asking else .pausing (w.now.timer delay)
               retry := { t.retry with retries := t.retry.retries + 1 } }
  /-- A task that is no call has nothing to send. -/
  | idle {credential : Credential}
    (hs : t.stage = .sending credential ∨
      ∃ attempt sent wake answer, t.stage = .awaitingAnswer credential attempt sent wake answer)
    (hg : ∀ r url, t.goal ≠ .call r url) :
    Move p c w t w { t with stage := .done (.credential (.ok credential)) }

section Inversion

variable {p : Peer σ} {c : Setup} {w w' : World σ} {t t' : Task}

theorem ask_move (ha : t.Asks w.now) (h : t.ask w = .ok (some (w', t'))) : t.Move p c w w' t' := by
  unfold ask at h
  split at h
  · cases h
  · rename_i d l hl
    cases h
    exact .refused ha hl
  · rename_i l hl
    have := Move.granted (p := p) (c := c) ha hl
    unfold admitted at this
    split at h <;> cases h <;> simp_all

theorem seek_move (hs : t.stage = .seeking) (h : t.seek c w = .ok (some (w', t'))) :
    t.Move p c w w' t' := by
  unfold seek at h
  split at h
  · rename_i credential hu
    rw [obtain_eq] at h
    cases h
    exact .found hs hu
  · rename_i hu
    cases h
    exact .lined hs hu

theorem enter_move {observed : Nat} (hs : t.stage = .queued observed)
    (h : t.enter c w observed = .ok (some (w', t'))) : t.Move p c w w' t' := by
  unfold enter at h
  split at h
  · cases h
  · rename_i hh
    have hh : w.turnstile.holder = some t.id := Decidable.not_not.mp hh
    split at h
    · rename_i credential hu
      rw [obtain_eq] at h
      cases h
      exact .shared hs hh hu
    · rename_i hu
      split at h
      · rename_i f hf
        rw [obtain_eq] at h
        cases h
        by_cases hg : w.vault.generation = observed
        · simp [hg] at hf
        · exact .sharedFailure hs hh hu hg (by simpa [hg] using hf)
      · rename_i hf
        cases h
        refine .refresh hs hh hu ?_
        by_cases hg : w.vault.generation = observed
        · exact .inl hg
        · exact .inr (by simpa [hg] using hf)

theorem exchange_move {r : Refresh} (he : t.Exchanges w.now r)
    (h : t.exchange p w r = .ok (some (w', t'))) : t.Move p c w w' t' := by
  cases h
  exact .exchange he

theorem issue_move {r : Refresh} {wake : Instant} {answer : Except Failure TokenGrant}
    (hs : t.stage = .awaitingToken r wake answer) (hw : wake ≤ w.now)
    (h : t.issue p c w r answer = .ok (some (w', t'))) : t.Move p c w w' t' := by
  unfold issue at h
  cases answer with
  | ok token =>
    simp only at h
    split at h
    · rename_i credential hi
      rw [conclude_eq] at h
      cases h
      exact .issued hs hw hi
    · cases h
  | error f =>
    simp only [exchangeFailed] at h
    split at h
    · rename_i hf
      cases h
      exact .rest hs hw hf.1 hf.2
    · rename_i hf
      split at h
      · rename_i grant status m hr
        cases h
        exact .fallBack hs hw ⟨status, m, rfl⟩ hr
      · rename_i hr
        rw [conclude_eq] at h
        cases h
        refine .refreshFailed hs hw hf ?_
        cases hg : r.fallback with
        | none => exact .inl rfl
        | some grant => exact .inr fun status m he => hr grant status m hg he

theorem send_move {credential : Credential} (hs : t.stage = .sending credential)
    (h : t.send p c w credential = .ok (some (w', t'))) : t.Move p c w w' t' := by
  unfold send at h
  split at h
  · rename_i r url hg
    split at h
    · cases h
    · rename_i attempt ha
      cases h
      exact .send hs hg ha
  · rename_i hg
    cases h
    exact .idle (.inl hs) hg

def heed (w : World σ) (t : Task) (credential : Credential) : Decision → Step σ
  | .succeed a => t.go w (.done (.answer (.ok a)))
  | .fail f => t.go w (.done (.answer (.error f)))
  | .retry delay cause _ =>
    let delay := min delay longestPause
    match cause with
    | .credentialRejected => t.again (w.invalidate credential.accessToken) delay
    | .rateLimited =>
      t.again ({ w with limiter := w.limiter.penalize w.now delay }.note (.penalized t.id delay)) delay
    | .network | .server => t.again w delay

theorem decide_eq {r : Request} {url : Url} (hg : t.goal = .call r url) (credential : Credential)
    (attempt : Nat) (sent : Instant) (answer : Except Failure Response) :
    t.decide p c w credential attempt sent answer =
      heed (w.heard p t.id (w.received attempt sent answer))
        { t with retry := (c.policy.evaluate (w.received attempt sent answer) r t.retry
                   (p.draw w.peer).1).2 } credential
        (c.policy.evaluate (w.received attempt sent answer) r t.retry (p.draw w.peer).1).1 := by
  simp only [decide, hg]
  rfl

theorem decide_move {credential : Credential} {attempt : Nat} {sent wake : Instant}
    {answer : Except Failure Response}
    (hs : t.stage = .awaitingAnswer credential attempt sent wake answer) (hw : wake ≤ w.now)
    (h : t.decide p c w credential attempt sent answer = .ok (some (w', t'))) :
    t.Move p c w w' t' := by
  by_cases hg : ∃ r url, t.goal = .call r url
  · obtain ⟨r, url, hg⟩ := hg
    rw [decide_eq hg] at h
    cases ho : RetryPolicy.outcome (w.received attempt sent answer) r.path with
    | ok a =>
      obtain ⟨ha, hok⟩ := RetryPolicy.outcome_ok ho
      rw [c.policy.evaluate_of_ok ho, ha] at h
      cases h
      exact .succeed hs hw hg ha hok
    | error f =>
      rw [c.policy.evaluate_of_error ho] at h
      rcases c.policy.onFailure_cases f r t.retry (p.draw w.peer).1 with
        hd | ⟨hr, ha, hd⟩ | ⟨cause, hc, hr, hd⟩
      · rw [hd] at h
        cases h
        exact .fail hs hw hg ho hd
      · rw [hd] at h
        cases h
        exact .reject hs hw hg ho ha hr
      · rw [hd] at h
        cases cause with
        | credentialRejected => exact absurd hc (c.policy.cause?_ne_credentialRejected r f)
        | rateLimited =>
          cases h
          exact .slow hs hw hg ho hc hr rfl
        | network =>
          cases h
          exact .retry hs hw hg ho (.inl hc) hr rfl
        | server =>
          cases h
          exact .retry hs hw hg ho (.inr hc) hr rfl
  · have hg : ∀ r url, t.goal ≠ .call r url := fun r url h => hg ⟨r, url, h⟩
    unfold decide at h
    split at h
    · rename_i r url he
      exact absurd he (hg r url)
    · cases h
      exact .idle (.inr ⟨attempt, sent, wake, answer, hs⟩) hg

theorem step_move (h : t.step p c w = .ok (some (w', t'))) : t.Move p c w w' t' := by
  unfold step at h
  cases hs : t.stage with
  | asking =>
    simp only [hs] at h
    split at h
    · rename_i f hg
      cases h
      exact .stray hs hg
    · rename_i hg
      exact ask_move (.inl ⟨hs, hg⟩) h
  | admitting wake =>
    simp only [hs] at h
    split at h
    · rename_i hw
      exact ask_move (.inr ⟨wake, hw, .inl hs⟩) h
    · cases h
  | seeking =>
    simp only [hs] at h
    exact seek_move hs h
  | queued observed =>
    simp only [hs] at h
    exact enter_move hs h
  | exchanging r =>
    simp only [hs] at h
    exact exchange_move (.inl hs) h
  | awaitingToken r wake answer =>
    simp only [hs] at h
    split at h
    · rename_i hw
      exact issue_move hs hw h
    · cases h
  | resting r wake =>
    simp only [hs] at h
    split at h
    · rename_i hw
      exact exchange_move (.inr ⟨wake, hw, hs⟩) h
    · cases h
  | sending credential =>
    simp only [hs] at h
    exact send_move hs h
  | awaitingAnswer credential attempt sent wake answer =>
    simp only [hs] at h
    split at h
    · rename_i hw
      exact decide_move hs hw h
    · cases h
  | pausing wake =>
    simp only [hs] at h
    split at h
    · rename_i hw
      exact ask_move (.inr ⟨wake, hw, .inr hs⟩) h
    · cases h
  | done o =>
    simp only [hs] at h
    cases h

namespace Move

theorem id_eq (h : t.Move p c w w' t') : t'.id = t.id := by
  cases h <;> rfl

theorem goal_eq (h : t.Move p c w w' t') : t'.goal = t.goal := by
  cases h <;> rfl

theorem deadline_eq (h : t.Move p c w w' t') : t'.deadline = t.deadline := by
  cases h <;> rfl

theorem now_eq (h : t.Move p c w w' t') : w'.now = w.now := by
  cases h <;> rfl

theorem date_eq (h : t.Move p c w w' t') : w'.date = w.date := by
  cases h <;> rfl

theorem tasks_eq (h : t.Move p c w w' t') : w'.tasks = w.tasks := by
  cases h <;> rfl

theorem undone (h : t.Move p c w w' t') : t.stage.outcome? = none := by
  cases h with
  | refused ha _ | granted ha _ =>
    rcases ha with ⟨hs, -⟩ | ⟨wake, -, hs | hs⟩ <;> rw [hs] <;> rfl
  | exchange he => rcases he with hs | ⟨wake, -, hs⟩ <;> rw [hs] <;> rfl
  | idle hs hg => rcases hs with hs | ⟨attempt, sent, wake, answer, hs⟩ <;> rw [hs] <;> rfl
  | _ => simp [Stage.outcome?, *]

end Move

end Inversion

end Task

end CatalogClient
