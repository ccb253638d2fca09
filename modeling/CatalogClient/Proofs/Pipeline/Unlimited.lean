import CatalogClient.Proofs.Pipeline.Completion
/-!
Tasks without their deadlines. No step looks at a deadline, so that a task goes on as it does with one, and
a schedule differs in the timers of the deadlines only.
-/

namespace CatalogClient

open Traffic

def Request.unlimited (r : Request) : Request := { r with deadline := none }

def Setup.unlimited (c : Setup) : Setup := { c with deadline := none }

def Goal.unlimited : Goal → Goal
  | .call r url => .call r.unlimited url
  | goal => goal

def Order.unlimited (o : Order) : Order := ⟨o.goal.unlimited, none⟩

theorem RetryPolicy.evaluate_unlimited (p : RetryPolicy) (result : Except Failure Response)
    (r : Request) (s : RetryState) (draw : Nat) :
    p.evaluate result r.unlimited s draw = p.evaluate result r s draw := rfl

namespace Task

variable {σ : Type}

def unlimited (t : Task) : Task := { t with goal := t.goal.unlimited, deadline := none }

def Step.unlimited (x : Step σ) : Step σ := x.map (Option.map fun y => (y.1, y.2.unlimited))

theorem obtained_unlimited (t : Task) (result : Except Failure Credential) :
    t.unlimited.obtained result = t.obtained result := by
  obtain ⟨id, goal, started, deadline, stage, retry⟩ := t
  cases goal <;> cases result <;> rfl

theorem start_unlimited (w : World σ) (id : Nat) (goal : Goal) (deadline : Option Span) :
    (start w id goal deadline).unlimited = start w id goal.unlimited none := by
  cases goal <;> rfl

variable (p : Peer σ) (c : Setup) (w : World σ) (t : Task)

theorem ask_unlimited : t.unlimited.ask w = (t.ask w).unlimited := by
  unfold ask
  split
  · rfl
  · rfl
  · obtain ⟨id, goal, started, deadline, stage, retry⟩ := t
    cases goal <;> rfl

theorem obtain_unlimited (result : Except Failure Credential) :
    t.unlimited.obtain w result = (t.obtain w result).unlimited := by
  rw [obtain_eq, obtain_eq, obtained_unlimited]
  rfl

theorem seek_unlimited : t.unlimited.seek c.unlimited w = (t.seek c w).unlimited := by
  have hcredential : w.usable? c.unlimited = w.usable? c := rfl
  simp only [seek, hcredential]
  cases w.usable? c with
  | some credential => exact obtain_unlimited w t _
  | none => rfl

theorem conclude_unlimited (result : Except Failure Credential) :
    t.unlimited.conclude w result = (t.conclude w result).unlimited :=
  obtain_unlimited _ t result

theorem enter_unlimited (observed : Nat) :
    t.unlimited.enter c.unlimited w observed = (t.enter c w observed).unlimited := by
  have hcredential : w.usable? c.unlimited = w.usable? c := rfl
  have hid : t.unlimited.id = t.id := rfl
  rw [enter, enter, hid]
  by_cases hheld : w.turnstile.holder ≠ some t.id
  · rw [if_pos hheld, if_pos hheld]
    rfl
  · rw [if_neg hheld, if_neg hheld, hcredential]
    cases w.usable? c with
    | some credential => exact obtain_unlimited _ t _
    | none =>
      dsimp only
      cases if w.vault.generation = observed then none else w.vault.lastFailure with
      | some f => exact obtain_unlimited _ t _
      | none => rfl

theorem exchangeFailed_unlimited (r : Refresh) (f : Failure) :
    t.unlimited.exchangeFailed p c.unlimited w r f = (t.exchangeFailed p c w r f).unlimited := by
  unfold exchangeFailed
  change (if f.isRetryable ∧ r.retries < c.policy.maxRetries then _ else _) = _
  split
  · rfl
  · split
    · rfl
    · exact conclude_unlimited w t _

theorem issue_unlimited (r : Refresh) (answer : Except Failure TokenGrant) :
    t.unlimited.issue p c.unlimited w r answer = (t.issue p c w r answer).unlimited := by
  cases answer with
  | error f => exact exchangeFailed_unlimited p c _ t r f
  | ok token =>
    simp only [issue, World.note]
    cases Credential.issued token w.date with
    | error fault => rfl
    | ok credential => exact conclude_unlimited _ t _

theorem send_unlimited (credential : Credential) :
    t.unlimited.send p c.unlimited w credential = (t.send p c w credential).unlimited := by
  obtain ⟨id, goal, started, deadline, stage, retry⟩ := t
  cases goal with
  | call r url =>
    simp only [send, unlimited, Goal.unlimited]
    cases retry.attempts with
    | error fault => rfl
    | ok attempt => rfl
  | _ => rfl

theorem heed_unlimited (credential : Credential) (decision : Decision) :
    heed w t.unlimited credential decision = (heed w t credential decision).unlimited := by
  cases decision with
  | succeed a => rfl
  | fail f => rfl
  | retry delay cause f => cases cause <;> rfl

theorem decide_unlimited (credential : Credential) (attempt : Nat) (sent : Instant)
    (answer : Except Failure Response) :
    t.unlimited.decide p c.unlimited w credential attempt sent answer =
      (t.decide p c w credential attempt sent answer).unlimited := by
  obtain ⟨id, goal, started, deadline, stage, retry⟩ := t
  cases goal with
  | call r url =>
    let u : Task := ⟨id, .call r url, started, deadline, stage, retry⟩
    have hgoal : u.unlimited.goal = .call r.unlimited url := rfl
    rw [decide_eq hgoal, decide_eq (t := u) rfl, c.unlimited.policy.evaluate_unlimited]
    exact heed_unlimited (w.heard p id (w.received attempt sent answer))
      { u with retry := (c.policy.evaluate (w.received attempt sent answer) r retry
                 (p.draw w.peer).1).2 } credential _
  | _ => rfl

theorem step_unlimited : t.unlimited.step p c.unlimited w = (t.step p c w).unlimited := by
  obtain ⟨id, goal, started, deadline, stage, retry⟩ := t
  cases stage with
  | asking =>
    cases goal with
    | stray f => rfl
    | _ => exact ask_unlimited w _
  | admitting wake | pausing wake =>
    by_cases h : wake ≤ w.now
    · simp only [step, unlimited, if_pos h]
      exact ask_unlimited w ⟨_, _, _, _, _, _⟩
    · simp only [step, unlimited, if_neg h]
      rfl
  | seeking => exact seek_unlimited c w _
  | queued observed => exact enter_unlimited c w _ observed
  | exchanging r => rfl
  | awaitingToken r wake answer =>
    by_cases h : wake ≤ w.now
    · simp only [step, unlimited, if_pos h]
      exact issue_unlimited p c w ⟨_, _, _, _, _, _⟩ r answer
    · simp only [step, unlimited, if_neg h]
      rfl
  | resting r wake =>
    by_cases h : wake ≤ w.now
    · simp only [step, unlimited, if_pos h]
      rfl
    · simp only [step, unlimited, if_neg h]
      rfl
  | sending credential => exact send_unlimited p c w _ credential
  | awaitingAnswer credential attempt sent wake answer =>
    by_cases h : wake ≤ w.now
    · simp only [step, unlimited, if_pos h]
      exact decide_unlimited p c w ⟨_, _, _, _, _, _⟩ credential attempt sent answer
    · simp only [step, unlimited, if_neg h]
      rfl
  | done o => rfl

end Task

namespace Schedule

variable {σ : Type}

def unlimited (s : Schedule σ) : Schedule σ :=
  { s with
    tasks := s.tasks.map (·.unlimited)
    timers := s.timers.filter (! ·.isDeadline)
    orders := s.orders.map (·.unlimited) }

theorem advance_unlimited (p : Peer σ) (c : Setup) (fuel : Nat) (w : World σ) (t : Task)
    (woken : List Nat) : advance p c.unlimited fuel w t.unlimited woken =
      (advance p c fuel w t woken).map fun x => (x.1, x.2.1.unlimited, x.2.2) := by
  induction fuel generalizing w t woken with
  | zero => rfl
  | succ fuel ih =>
    unfold advance
    rw [t.step_unlimited p c w]
    cases t.step p c w with
    | error fault => rfl
    | ok next =>
      cases next with
      | none => rfl
      | some next => exact ih next.1 next.2 _

theorem checkDeadline_unlimited (w : World σ) (t : Task) :
    checkDeadline w t.unlimited = (w, t.unlimited, []) := by
  simp [checkDeadline, Task.unlimited]

theorem put_unlimited (ts : List Task) (t : Task) :
    put (ts.map (·.unlimited)) t.unlimited = (put ts t).map (·.unlimited) := by
  rw [put, put, List.map_map, List.map_map]
  refine List.map_congr_left fun u _ => ?_
  simp only [Function.comp_apply, apply_ite Task.unlimited]
  rfl

theorem filter_wakes (timers : List Timer) (keep : Timer → Bool) :
    (timers.filter (! ·.isDeadline)).filter keep = (timers.filter keep).filter (! ·.isDeadline) := by
  rw [List.filter_filter, List.filter_filter]
  exact List.filter_congr fun x _ => Bool.and_comm _ _

theorem resetTimers_unlimited (timers : List Timer) (t : Task) :
    resetTimers (timers.filter (! ·.isDeadline)) t.unlimited =
      (resetTimers timers t).filter (! ·.isDeadline) := by
  simp only [resetTimers, Task.unlimited, filter_wakes]
  split
  · rfl
  · refine Eq.trans ?_ (List.filter_append _ _).symm
    congr 1
    cases t.stage.wake? <;> cases t.deadline <;> simp [List.filter_cons] <;> split_ifs <;> rfl

end Schedule

end CatalogClient
