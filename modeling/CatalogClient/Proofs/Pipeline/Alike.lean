import CatalogClient.Proofs.Pipeline.Completion
import Mathlib.Data.List.Forall2
/-!
Services that differ in nothing but the bodies of some successes. What tasks do with the one, they do with
the other, step by step, so that their answers differ in nothing else either.
-/

namespace CatalogClient

variable {σ : Type} {P : Request → Prop} {R : Request → List UInt8 → List UInt8 → Prop}

/-- Two answers are the same, or successes with bodies that may stand for each other. -/
inductive SameAnswer (R : List UInt8 → List UInt8 → Prop) :
    Except Failure Response → Except Failure Response → Prop
  | same (answer : Except Failure Response) : SameAnswer R answer answer
  | body {a : Response} {body : List UInt8} (ha : a.isSuccess) (h : R a.body body) :
    SameAnswer R (.ok a) (.ok { a with body := body })

structure SameReply (R : List UInt8 → List UInt8 → Prop) (x y : Reply Response × σ) : Prop where
  state : y.2 = x.2
  latency : y.1.latency = x.1.latency
  answer : SameAnswer R x.1.answer y.1.answer

def Peer.withSend (p : Peer σ) (send : Attempt → σ → Reply Response × σ) : Peer σ :=
  { p with send := send }

theorem Peer.withSend_eq {p p' : Peer σ} (hexchange : p'.exchange = p.exchange)
    (hdraw : p'.draw = p.draw) : p.withSend p'.send = p' := by
  cases p
  cases p'
  cases hexchange
  cases hdraw
  rfl

/-- To the requests that count, the service answers in the same way with the other function. -/
def Peer.Twin (p : Peer σ) (send : Attempt → σ → Reply Response × σ) (c : Setup) (P : Request → Prop)
    (R : Request → List UInt8 → List UInt8 → Prop) : Prop :=
  ∀ r, P r → ∀ url authorization peer,
    SameReply (R r) (p.send (r.attempt url authorization c.timeout) peer)
      (send (r.attempt url authorization c.timeout) peer)

/-- Nobody looks at the journal. -/
def World.Alike (w w' : World σ) : Prop := ∃ journal, w' = { w with journal := journal }

inductive Stage.Alike (R : Request → List UInt8 → List UInt8 → Prop) (goal : Goal) :
    Stage → Stage → Prop
  | same (s : Stage) : Alike R goal s s
  | awaits {r : Request} {url : Url} {credential : Credential} {attempt : Nat} {sent wake : Instant}
    {answer answer' : Except Failure Response} (hg : goal = .call r url)
    (h : SameAnswer (R r) answer answer') :
    Alike R goal (.awaitingAnswer credential attempt sent wake answer)
      (.awaitingAnswer credential attempt sent wake answer')
  | done {r : Request} {url : Url} {answer answer' : Except Failure Response}
    (hg : goal = .call r url) (h : SameAnswer (R r) answer answer') :
    Alike R goal (.done (.answer answer)) (.done (.answer answer'))

namespace Stage.Alike

variable {goal : Goal} {s s' : Stage}

theorem wake?_eq (h : Stage.Alike R goal s s') : s'.wake? = s.wake? := by
  cases h <;> rfl

theorem outcome?_isSome (h : Stage.Alike R goal s s') : s'.outcome?.isSome = s.outcome?.isSome := by
  cases h <;> rfl

end Stage.Alike

def Goal.Counts (P : Request → Prop) (goal : Goal) : Prop := ∀ r url, goal = .call r url → P r

structure Task.Alike (P : Request → Prop) (R : Request → List UInt8 → List UInt8 → Prop)
    (t t' : Task) : Prop where
  counts : t.goal.Counts P
  stage : ∃ stage, t' = { t with stage := stage } ∧ Stage.Alike R t.goal t.stage stage

inductive Task.StepAlike (P : Request → Prop) (R : Request → List UInt8 → List UInt8 → Prop) :
    Task.Step σ → Task.Step σ → Prop
  | error (fault : Fault) : StepAlike P R (.error fault) (.error fault)
  | wait : StepAlike P R (.ok none) (.ok none)
  | move {w w' : World σ} {t t' : Task} (hw : w.Alike w') (ht : t.Alike P R t') :
    StepAlike P R (.ok (some (w, t))) (.ok (some (w', t')))

namespace Task

variable {p : Peer σ} {send : Attempt → σ → Reply Response × σ} {c : Setup} {w w' : World σ}
  {t t' : Task}

theorem Alike.refl (h : t.goal.Counts P) : t.Alike P R t := ⟨h, t.stage, rfl, .same _⟩

theorem go_alike (ht : t.goal.Counts P) (hw : w.Alike w') (s : Stage) :
    StepAlike P R (t.go w s) (t.go w' s) := .move hw (.refl ht)

theorem ask_alike (ht : t.goal.Counts P) (hw : w.Alike w') : StepAlike P R (t.ask w) (t.ask w') := by
  obtain ⟨j, rfl⟩ := hw
  unfold ask
  dsimp only
  cases w.limiter.tryGrant w.now with
  | error fault => exact .error fault
  | ok grant =>
    obtain ⟨d | _, l⟩ := grant
    · cases hg : t.goal <;> exact go_alike ht ⟨_, rfl⟩ _
    · exact go_alike ht ⟨_, rfl⟩ _

theorem obtain_alike (ht : t.goal.Counts P) (hw : w.Alike w') (result : Except Failure Credential) :
    StepAlike P R (t.obtain w result) (t.obtain w' result) := by
  obtain ⟨j, rfl⟩ := hw
  rw [obtain_eq, obtain_eq]
  exact .move ⟨_, rfl⟩ (.refl ht)

theorem seek_alike (ht : t.goal.Counts P) (hw : w.Alike w') :
    StepAlike P R (t.seek c w) (t.seek c w') := by
  obtain ⟨j, rfl⟩ := hw
  have hcredential : ({ w with journal := j } : World σ).usable? c = w.usable? c := rfl
  simp only [seek, hcredential]
  cases w.usable? c with
  | some credential => exact obtain_alike ht ⟨_, rfl⟩ _
  | none => exact go_alike ht ⟨_, rfl⟩ _

theorem conclude_alike (ht : t.goal.Counts P) (hw : w.Alike w') (result : Except Failure Credential) :
    StepAlike P R (t.conclude w result) (t.conclude w' result) := by
  obtain ⟨j, rfl⟩ := hw
  exact obtain_alike ht ⟨_, rfl⟩ result

theorem enter_alike (ht : t.goal.Counts P) (hw : w.Alike w') (observed : Nat) :
    StepAlike P R (t.enter c w observed) (t.enter c w' observed) := by
  obtain ⟨j, rfl⟩ := hw
  have hcredential : ({ w with journal := j } : World σ).usable? c = w.usable? c := rfl
  simp only [enter, hcredential]
  split
  · exact .wait
  · cases w.usable? c with
    | some credential => exact obtain_alike ht ⟨_, rfl⟩ _
    | none =>
      dsimp only
      cases if w.vault.generation = observed then none else w.vault.lastFailure with
      | some f => exact obtain_alike ht ⟨_, rfl⟩ _
      | none => exact go_alike ht ⟨_, rfl⟩ _

theorem exchange_alike (ht : t.goal.Counts P) (hw : w.Alike w') (r : Refresh) :
    StepAlike P R (t.exchange p w r) (t.exchange p w' r) := by
  obtain ⟨j, rfl⟩ := hw
  exact go_alike ht ⟨_, rfl⟩ _

theorem exchangeFailed_alike (ht : t.goal.Counts P) (hw : w.Alike w') (r : Refresh) (f : Failure) :
    StepAlike P R (t.exchangeFailed p c w r f) (t.exchangeFailed p c w' r f) := by
  obtain ⟨j, rfl⟩ := hw
  unfold exchangeFailed
  split
  · exact go_alike ht ⟨_, rfl⟩ _
  · split
    · exact go_alike ht ⟨_, rfl⟩ _
    · exact conclude_alike ht ⟨_, rfl⟩ _

theorem issue_alike (ht : t.goal.Counts P) (hw : w.Alike w') (r : Refresh)
    (answer : Except Failure TokenGrant) :
    StepAlike P R (t.issue p c w r answer) (t.issue p c w' r answer) := by
  obtain ⟨j, rfl⟩ := hw
  cases answer with
  | error f => exact exchangeFailed_alike ht ⟨_, rfl⟩ r f
  | ok token =>
    simp only [issue, World.note]
    cases Credential.issued token w.date with
    | error fault => exact .error fault
    | ok credential => exact conclude_alike ht ⟨_, rfl⟩ _

theorem send_alike (hp : p.Twin send c P R) (ht : t.goal.Counts P) (hw : w.Alike w')
    (credential : Credential) :
    StepAlike P R (t.send p c w credential) (t.send (p.withSend send) c w' credential) := by
  obtain ⟨j, rfl⟩ := hw
  cases hg : t.goal with
  | call r url =>
    cases hn : t.retry.attempts with
    | error fault =>
      simp only [Task.send, hg, hn]
      exact .error fault
    | ok attempt =>
      obtain ⟨hstate, hlatency, hanswer⟩ := hp r (ht r url hg) url credential.authorization w.peer
      simp only [Task.send, hg, hn, Peer.withSend]
      refine .move ⟨⟨w.now, .sent t.id (r.attempt url credential.authorization c.timeout)⟩ :: j, ?_⟩
        ⟨ht, _, rfl, ?_⟩
      · simp only [World.note, hstate]
      · simp only [World.note, hlatency]
        exact .awaits hg hanswer
  | _ =>
    simp only [Task.send, hg]
    exact go_alike ht ⟨_, rfl⟩ _

theorem heed_alike {u : Task} (ht : u.goal.Counts P) (hw : w.Alike w') (credential : Credential)
    (decision : Decision) : StepAlike P R (heed w u credential decision) (heed w' u credential decision) := by
  obtain ⟨j, rfl⟩ := hw
  cases decision with
  | succeed a => exact go_alike ht ⟨_, rfl⟩ _
  | fail f => exact go_alike ht ⟨_, rfl⟩ _
  | retry delay cause f => cases cause <;> exact go_alike ht ⟨_, rfl⟩ _

theorem heed_stage (w : World σ) (u : Task) (s : Stage) (credential : Credential)
    (decision : Decision) : heed w { u with stage := s } credential decision =
      heed w u credential decision := by
  cases decision with
  | succeed a => rfl
  | fail f => rfl
  | retry delay cause f => cases cause <;> rfl

theorem decide_alike (ht : t.goal.Counts P) (hw : w.Alike w') (credential : Credential)
    (attempt : Nat) (sent : Instant) {answer answer' : Except Failure Response}
    (hg : ∀ r url, t.goal = .call r url → SameAnswer (R r) answer answer') (s : Stage) :
    StepAlike P R (t.decide p c w credential attempt sent answer)
      (Task.decide p c w' { t with stage := s } credential attempt sent answer') := by
  obtain ⟨j, rfl⟩ := hw
  by_cases hcall : ∃ r url, t.goal = .call r url
  · obtain ⟨r, url, hcall⟩ := hcall
    rw [decide_eq hcall, decide_eq (t := { t with stage := s }) hcall]
    cases hg r url hcall with
    | same =>
      rw [heed_stage _ { t with retry := _ } s]
      refine heed_alike ?_ ⟨_, rfl⟩ credential _
      exact ht
    | @body a body ha h =>
      -- Both answers end the call, each with the body that it has.
      have hdone : ∀ (v : World σ) (b : Response), b.isSuccess →
          c.policy.evaluate (v.received attempt sent (.ok b)) r t.retry (p.draw w.peer).1 =
            (.succeed { b with elapsed := v.now.since sent, attempt := attempt }, t.retry) :=
        fun v b hb => c.policy.evaluate_of_ok
          (RetryPolicy.outcome_of_success (a := { b with elapsed := v.now.since sent, attempt := attempt }) hb _) _ _
      rw [hdone _ _ ha]
      have hdone' := hdone { w with journal := j } { a with body := body } ha
      simp only [hdone']
      exact .move ⟨_, rfl⟩ ⟨ht, _, rfl, .done hcall (.body ha h)⟩
  · have hno : ∀ (u : Task) (v : World σ) (x : Except Failure Response), u.goal = t.goal →
        u.decide p c v credential attempt sent x = u.go v (.done (.credential (.ok credential))) := by
      intro u v x hu
      unfold decide
      split
      · rename_i r url hgoal
        exact absurd ⟨r, url, hu ▸ hgoal⟩ hcall
      · rfl
    rw [hno t _ _ rfl, hno { t with stage := s } _ _ rfl]
    exact go_alike ht ⟨_, rfl⟩ _

theorem step_alike (hp : p.Twin send c P R) (hw : w.Alike w') (ht : t.Alike P R t') :
    StepAlike P R (t.step p c w) (t'.step (p.withSend send) c w') := by
  obtain ⟨hcounts, stage, rfl, hstage⟩ := ht
  have hnow : w'.now = w.now := by
    obtain ⟨j, rfl⟩ := hw
    rfl
  obtain ⟨id, goal, started, deadline, stage', retry⟩ := t
  cases hstage with
  | same =>
    unfold step
    cases stage' with
    | asking =>
      cases goal with
      | stray f => exact go_alike hcounts hw _
      | _ => exact ask_alike hcounts hw
    | admitting wake | pausing wake =>
      simp only [hnow]
      split
      · exact ask_alike hcounts hw
      · exact .wait
    | seeking => exact seek_alike hcounts hw
    | queued observed => exact enter_alike hcounts hw observed
    | exchanging r => exact exchange_alike hcounts hw r
    | awaitingToken r wake answer =>
      simp only [hnow]
      split
      · exact issue_alike hcounts hw r answer
      · exact .wait
    | resting r wake =>
      simp only [hnow]
      split
      · exact exchange_alike hcounts hw r
      · exact .wait
    | sending credential => exact send_alike hp hcounts hw credential
    | awaitingAnswer credential attempt sent wake answer =>
      simp only [hnow]
      split
      · exact decide_alike hcounts hw credential attempt sent (fun _ _ _ => .same _) _
      · exact .wait
    | done o => exact .wait
  | awaits hg h =>
    unfold step
    simp only [hnow]
    split
    · refine decide_alike (t := ⟨_, _, _, _, _, _⟩) hcounts hw _ _ _ (fun r url hg' => ?_) _
      cases hg.symm.trans hg'
      exact h
    · exact .wait
  | done hg h => exact .wait

end Task

end CatalogClient
