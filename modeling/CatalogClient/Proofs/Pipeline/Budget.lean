import CatalogClient.Proofs.Pipeline.Faults
import CatalogClient.Proofs.Pipeline.Resend
/-!
The budget of a call: how often it is sent at most, what each sending takes, and to what end it comes.
The tries behind which another one follows are what its retry state counts.
-/

namespace CatalogClient

namespace Failure

/-- The service did not carry out a request that failed so. -/
def neverHandled : Failure → Bool
  | .rateLimited .. => true
  | .network _ _ requestSent => !requestSent
  | _ => false

end Failure

namespace Response

/-- The credential of a request that ended so was rejected. -/
def unauthorized : Except Failure Response → Bool
  | .ok a => a.status = 401 || a.status = 403
  | .error (.authentication ..) => true
  | .error _ => false

theorem toFailure_of_unauthorized {a : Response} (h : a.status = 401 ∨ a.status = 403)
    (path : String) : ∃ status m, a.toFailure path = .authentication status m := by
  rcases h with h | h <;> simp [toFailure, h]

end Response

def Try.rejected (x : Try) : Bool := x.result.any Response.unauthorized

namespace RetryPolicy

theorem unauthorized_iff {result : Except Failure Response} {path : String} {f : Failure}
    (h : outcome result path = .error f) :
    Response.unauthorized result = true ↔ ∃ status m, f = .authentication status m := by
  rcases outcome_error h with rfl | ⟨a, rfl, -, rfl⟩
  · cases f <;> simp [Response.unauthorized]
  · simp only [Response.unauthorized, Bool.or_eq_true, decide_eq_true_eq]
    constructor
    · exact fun hs => a.toFailure_of_unauthorized hs path
    · rintro ⟨status, m, hf⟩
      exact a.toFailure_authentication hf

theorem cause?_of_retryable (p : RetryPolicy) {r : Request} {f : Failure} (hf : f.isRetryable)
    (hr : p.mayResend r ∨ f.neverHandled) : (p.cause? r f).isSome := by
  cases f with
  | rateLimited => rfl
  | network m timedOut requestSent =>
    cases requestSent <;> rcases hr with hr | hr <;> simp_all [cause?, Failure.neverHandled]
  | api status m =>
    rcases hr with hr | hr
    · simp [cause?, hr]
    · cases hr
  | _ => cases hf

/-- How the retry state of a call changes when a failure allows another try. -/
inductive Again (p : RetryPolicy) (r : Request) (f : Failure) (s : RetryState) : RetryState → Prop
  | refresh (hf : ∃ status m, f = .authentication status m) (hs : s.refreshed = false) :
    Again p r f s { s with refreshed := true }
  | budget (hf : ∀ status m, f ≠ .authentication status m) (hc : (p.cause? r f).isSome)
    (hs : s.retries < p.maxRetries) : Again p r f s { s with retries := s.retries + 1 }

theorem Again.ofCause {p : RetryPolicy} {r : Request} {f : Failure} {s : RetryState}
    {cause : RetryCause} (h : p.cause? r f = some cause) (hs : s.retries < p.maxRetries) :
    p.Again r f s { s with retries := s.retries + 1 } := by
  refine .budget ?_ (by rw [h]; rfl) hs
  rintro status m rfl
  cases h

end RetryPolicy

/-- What a retry state counts, told by the tries behind which another one follows. -/
structure Spent (p : RetryPolicy) (path : String) (s : RetryState) (tries : List Try) : Prop where
  others : tries.countP (!·.rejected) = s.retries
  rejected : tries.countP (·.rejected) = if s.refreshed then 1 else 0
  budget : s.retries ≤ p.maxRetries
  failed : ∀ x ∈ tries, ∃ result f, x.result = some result ∧
    RetryPolicy.outcome result path = .error f

namespace Spent

variable {p : RetryPolicy} {r : Request} {s s' : RetryState} {tries : List Try}

theorem nothing (p : RetryPolicy) (path : String) : Spent p path .start [] :=
  ⟨rfl, rfl, Nat.zero_le _, by simp⟩

theorem length_eq {path : String} (h : Spent p path s tries) :
    tries.length = s.retries + if s.refreshed then 1 else 0 := by
  rw [tries.length_eq_countP_add_countP (·.rejected), h.rejected, ← h.others]
  simp only [Bool.not_eq_true, Bool.decide_eq_false]
  omega

theorem attempts {path : String} (h : Spent p path s tries) {n : Nat} (ha : s.attempts = .ok n) :
    n = tries.length + 1 := by
  unfold RetryState.attempts at ha
  simp only at ha
  generalize hk : s.retries + 1 + (if s.refreshed then 1 else 0) = k at ha
  split at ha
  · cases ha
    have hlen := h.length_eq
    omega
  · cases ha

theorem again (h : Spent p r.path s tries) {a : Attempt} {result : Except Failure Response}
    {f : Failure} (hf : RetryPolicy.outcome result r.path = .error f)
    (ha : p.Again r f s s') : Spent p r.path s' (⟨a, some result⟩ :: tries) := by
  have hiff := RetryPolicy.unauthorized_iff hf
  have hfailed : ∀ x ∈ (⟨a, some result⟩ :: tries : List Try), ∃ result f,
      x.result = some result ∧ RetryPolicy.outcome result r.path = .error f := by
    intro x hx
    rcases List.mem_cons.mp hx with rfl | hx
    · exact ⟨result, f, rfl, hf⟩
    · exact h.failed x hx
  cases ha with
  | refresh hauth hs =>
    have hrejected : Try.rejected ⟨a, some result⟩ = true := hiff.mpr hauth
    refine ⟨?_, ?_, h.budget, hfailed⟩
    · rw [List.countP_cons_of_neg (by simp [hrejected]), h.others]
    · rw [List.countP_cons_of_pos hrejected, h.rejected, hs]
      rfl
  | budget hauth hc hs =>
    have hrejected : Try.rejected ⟨a, some result⟩ = false := by
      refine Bool.eq_false_iff.mpr fun ht => ?_
      obtain ⟨status, m, he⟩ := hiff.mp ht
      exact hauth status m he
    refine ⟨?_, ?_, hs, hfailed⟩
    · rw [List.countP_cons_of_pos (by simp [hrejected]), h.others]
    · rw [List.countP_cons_of_neg (by simp [hrejected]), h.rejected]

end Spent

inductive Pace
  | slot
  | attempt
  deriving DecidableEq, Repr

namespace Journal

/-- The slots that a task got and the attempts that it sent, the latest first. -/
def paces (i : Nat) (journal : List Entry) : List Pace :=
  journal.filterMap fun e => match e.event with
    | .granted j => if j = i then some .slot else none
    | .sent j _ => if j = i then some .attempt else none
    | _ => none

theorem own_paces : Own paces := by
  intro i e journal h
  obtain ⟨time, event⟩ := e
  cases event with
  | granted j =>
    have hj : j ≠ i := fun hj => h (by rw [← hj]; rfl)
    simp [paces, hj]
  | sent j a =>
    have hj : j ≠ i := fun hj => h (by rw [← hj]; rfl)
    simp [paces, hj]
  | _ => rfl

def course (i : Nat) (journal : List Entry) : List Try × List Pace :=
  (tries i journal, paces i journal)

theorem own_course : Own course := fun i e journal h =>
  Prod.ext (own_tries i e journal h) (own_paces i e journal h)

end Journal

/-- So many attempts, each with a slot of its own directly before it. -/
def Pace.alternate (n : Nat) : List Pace := (List.replicate n [Pace.attempt, Pace.slot]).flatten

namespace Task

variable {σ : Type} {p : Peer σ} {c : Setup} {w w' : World σ} {t t' : Task}

/-- What a step of a call means for its budget. -/
inductive Move.Course (p : Peer σ) (c : Setup) (w w' : World σ) (t t' : Task) (r : Request)
    (url : Url) : Prop
  | waits (hj : Journal.course t.id w'.journal = Journal.course t.id w.journal)
    (hs : t'.slotted = t.slotted) (ha : ∀ answer, ¬ t.Awaits answer)
    (ha' : ∀ answer, ¬ t'.Awaits answer) (hu : t'.stage.outcome? = none) (hr : t'.retry = t.retry)
  | admitted (hj : Journal.course t.id w'.journal =
      (Journal.tries t.id w.journal, .slot :: Journal.paces t.id w.journal))
    (hs : t.slotted = false) (hs' : t'.slotted) (ha : ∀ answer, ¬ t.Awaits answer)
    (ha' : ∀ answer, ¬ t'.Awaits answer) (hu : t'.stage.outcome? = none) (hr : t'.retry = t.retry)
  | sends {credential : Credential} {n : Nat} {sent wake : Instant}
    {answer : Except Failure Response}
    (hj : ∃ authorization, Journal.course t.id w'.journal =
      (⟨r.attempt url authorization c.timeout, none⟩ :: Journal.tries t.id w.journal,
        .attempt :: Journal.paces t.id w.journal))
    (hs : t.slotted) (ha : ∀ answer, ¬ t.Awaits answer)
    (hs' : t'.stage = .awaitingAnswer credential n sent wake answer)
    (hn : t.retry.attempts = .ok n) (hr : t'.retry = t.retry)
  | succeeds {credential : Credential} {n : Nat} {sent wake : Instant}
    {answer : Except Failure Response} {a : Response}
    (hj : Journal.course t.id w'.journal =
      (Journal.hear (w.received n sent answer) (Journal.tries t.id w.journal),
        Journal.paces t.id w.journal))
    (hs : t.stage = .awaitingAnswer credential n sent wake answer)
    (ha : w.received n sent answer = .ok a) (hok : a.isSuccess)
    (hs' : t'.stage = .done (.answer (.ok a))) (hr : t'.retry = t.retry)
  | fails {credential : Credential} {n : Nat} {sent wake : Instant}
    {answer : Except Failure Response} {f : Failure} {draw : Nat}
    (hj : Journal.course t.id w'.journal =
      (Journal.hear (w.received n sent answer) (Journal.tries t.id w.journal),
        Journal.paces t.id w.journal))
    (hs : t.stage = .awaitingAnswer credential n sent wake answer)
    (hf : RetryPolicy.outcome (w.received n sent answer) r.path = .error f)
    (hd : c.policy.onFailure f r t.retry draw = (.fail f, t.retry))
    (hs' : t'.stage = .done (.answer (.error f))) (hr : t'.retry = t.retry)
  | again {credential : Credential} {n : Nat} {sent wake : Instant}
    {answer : Except Failure Response} {f : Failure}
    (hj : Journal.course t.id w'.journal =
      (Journal.hear (w.received n sent answer) (Journal.tries t.id w.journal),
        Journal.paces t.id w.journal))
    (hs : t.stage = .awaitingAnswer credential n sent wake answer)
    (hf : RetryPolicy.outcome (w.received n sent answer) r.path = .error f)
    (ha : c.policy.Again r f t.retry t'.retry) (hs' : t'.slotted = false)
    (ha' : ∀ answer, ¬ t'.Awaits answer) (hu : t'.stage.outcome? = none)
  /-- There is no credential to send anything with. -/
  | unserved {f : Failure} (hj : Journal.course t.id w'.journal = Journal.course t.id w.journal)
    (hf : w.vault.lastFailure = some f ∨ ∃ r wake, t.stage = .awaitingToken r wake (.error f))
    (hs' : t'.stage = .done (.answer (.error f)))

theorem Asks.not_slotted {now : Instant} (h : t.Asks now) : t.slotted = false := by
  rcases h with ⟨hs, -⟩ | ⟨wake, -, hs | hs⟩ <;> simp [slotted, hs]

theorem Asks.undone {now : Instant} (h : t.Asks now) : t.stage.outcome? = none := by
  rcases h with ⟨hs, -⟩ | ⟨wake, -, hs | hs⟩ <;> rw [hs] <;> rfl

theorem Move.Course.ofStages {r : Request} {url : Url} {stage stage' : Stage}
    (hj : Journal.course t.id w'.journal = Journal.course t.id w.journal) (hs : t.stage = stage)
    (hs' : t'.stage = stage') (hr : t'.retry = t.retry)
    (hslot : slotted { t with stage := stage' } = slotted { t with stage := stage })
    (hn : ∀ credential attempt sent wake answer,
      stage ≠ .awaitingAnswer credential attempt sent wake answer)
    (hn' : ∀ credential attempt sent wake answer,
      stage' ≠ .awaitingAnswer credential attempt sent wake answer)
    (hu : stage'.outcome? = none) : Move.Course p c w w' t t' r url := by
  refine .waits hj ?_ ?_ ?_ (hs' ▸ hu) hr
  · simp only [slotted, hs, hs'] at hslot ⊢
    exact hslot
  · rintro answer ⟨credential, attempt, sent, wake, ha⟩
    exact hn _ _ _ _ _ (hs.symm.trans ha)
  · rintro answer ⟨credential, attempt, sent, wake, ha⟩
    exact hn' _ _ _ _ _ (hs'.symm.trans ha)

theorem pause_undone (wake : Instant) (delay : Span) :
    (if delay.isZero then .asking else .pausing wake : Stage).outcome? = none := by
  split <;> rfl

theorem pause_not_awaits (t : Task) (wake : Instant) (delay : Span) (s : RetryState)
    (answer : Except Failure Response) :
    ¬ Awaits { t with stage := if delay.isZero then .asking else .pausing wake, retry := s }
      answer := by
  simp only [Awaits]
  split <;> simp

theorem Move.course (h : t.Move p c w w' t') {r : Request} {url : Url} (hg : t.goal = .call r url) :
    Move.Course p c w w' t t' r url := by
  cases h with
  | stray hs hg' =>
    rw [hg] at hg'
    cases hg'
  | refused ha hl =>
    exact .waits rfl ha.not_slotted.symm ha.not_awaits (by simp [Awaits]) rfl rfl
  | granted ha hl =>
    have hstage := admitted_call hg
    refine .admitted ?_ ha.not_slotted ?_ ha.not_awaits ?_ ?_ rfl
    · simp [Journal.course, Journal.paces, Journal.tries, World.note]
    · simp [slotted, hstage]
    · simp [Awaits, hstage]
    · simp [Stage.outcome?, hstage]
  | found hs hu =>
    exact .ofStages rfl hs (obtained_ok hg _) rfl rfl (by simp) (by simp) rfl
  | lined hs hu => exact .ofStages rfl hs rfl rfl rfl (by simp) (by simp) rfl
  | shared hs hh hu =>
    exact .ofStages rfl hs (obtained_ok hg _) rfl rfl (by simp) (by simp) rfl
  | sharedFailure hs hh hu hgen hf => exact .unserved rfl (.inl hf) (obtained_error hg _)
  | refresh hs hh hu hgen => exact .ofStages rfl hs rfl rfl rfl (by simp) (by simp) rfl
  | exchange he =>
    rcases he with hs | ⟨wake, -, hs⟩
    · exact .ofStages rfl hs rfl rfl rfl (by simp) (by simp) rfl
    · exact .ofStages rfl hs rfl rfl rfl (by simp) (by simp) rfl
  | issued hs hw hi =>
    exact .ofStages rfl hs (obtained_ok hg _) rfl rfl (by simp) (by simp) rfl
  | rest hs hw hf hr => exact .ofStages rfl hs rfl rfl rfl (by simp) (by simp) rfl
  | fallBack hs hw hf hr => exact .ofStages rfl hs rfl rfl rfl (by simp) (by simp) rfl
  | refreshFailed hs hw hr hf => exact .unserved rfl (.inr ⟨_, _, hs⟩) (obtained_error hg _)
  | @send credential r' url' attempt hs hg' ha =>
    cases hg.symm.trans hg'
    refine .sends ⟨credential.authorization, ?_⟩ (by simp [slotted, hs]) (by simp [Awaits, hs]) rfl
      ha rfl
    simp [Journal.course, Journal.paces, Journal.tries, World.note]
  | succeed hs hw hg' ha hok =>
    refine .succeeds ?_ hs ha hok rfl rfl
    simp [Journal.course, Journal.paces, Journal.tries, World.heard, World.note, ha]
  | fail hs hw hg' hf hd =>
    cases hg.symm.trans hg'
    refine .fails ?_ hs hf hd rfl rfl
    simp [Journal.course, Journal.paces, Journal.tries, World.heard, World.note]
  | reject hs hw hg' hf ha hr =>
    cases hg.symm.trans hg'
    refine .again ?_ hs hf (.refresh ha hr) rfl (by simp [Awaits]) rfl
    simp [Journal.course, Journal.paces, Journal.tries, World.heard, World.note, World.invalidate]
  | slow hs hw hg' hf hc hr hd =>
    cases hg.symm.trans hg'
    refine .again ?_ hs hf (.ofCause hc hr) (pause_not_slotted t _ _ _)
      (pause_not_awaits t _ _ _) (pause_undone _ _)
    simp [Journal.course, Journal.paces, Journal.tries, World.heard, World.note]
  | retry hs hw hg' hf hc hr hd =>
    cases hg.symm.trans hg'
    have ha := hc.elim (RetryPolicy.Again.ofCause · hr) (RetryPolicy.Again.ofCause · hr)
    refine .again ?_ hs hf ha (pause_not_slotted t _ _ _)
      (pause_not_awaits t _ _ _) (pause_undone _ _)
    simp [Journal.course, Journal.paces, Journal.tries, World.heard, World.note]
  | idle hs hg' => exact absurd hg (hg' r url)

end Task

theorem World.received_attempt {σ : Type} {w : World σ} {n : Nat} {sent : Instant}
    {answer : Except Failure Response} {a : Response} (h : w.received n sent answer = .ok a) :
    a.attempt = n := by
  cases answer with
  | error f => cases h
  | ok b =>
    cases h
    rfl

/-- Every exchange comes back with a token. -/
def Peer.Grants {σ : Type} (p : Peer σ) : Prop :=
  ∀ g peer, ∃ token, (p.exchange g peer).1.answer = .ok token

theorem Peer.Issues.grants {σ : Type} {p : Peer σ} {date : UtcTime} (h : p.Issues date) :
    p.Grants := by
  intro g peer
  obtain ⟨token, -, hanswer, -⟩ := h g peer
  exact ⟨token, hanswer⟩

namespace Traffic

variable {σ : Type} {p : Peer σ} {c : Setup}

/-- A call whose last try was answered with its response, or failed in a way that leads no further. -/
def Concluded (c : Setup) (r : Request) (answer : Except Failure Response) (tries : List Try) :
    Prop :=
  ∃ a result rest s, tries = ⟨a, some result⟩ :: rest ∧ Spent c.policy r.path s rest ∧
    ((∃ b, result = .ok b ∧ b.isSuccess ∧ b.attempt = tries.length ∧ answer = .ok b) ∨
      ∃ f draw, RetryPolicy.outcome result r.path = .error f ∧ answer = .error f ∧
        c.policy.onFailure f r s draw = (.fail f, s))

/-- The tries and slots of a call, and what it has used up by them. -/
structure Spending (p : Peer σ) (c : Setup) (r : Request) (t : Task) (x : List Try × List Pace) :
    Prop where
  going : t.stage.outcome? = none → (∀ answer, ¬ t.Awaits answer) →
    Spent c.policy r.path t.retry x.1
  awaiting : ∀ credential n sent wake answer,
    t.stage = .awaitingAnswer credential n sent wake answer →
    ∃ a rest, x.1 = ⟨a, none⟩ :: rest ∧ Spent c.policy r.path t.retry rest ∧ n = x.1.length
  paces : t.stage.outcome? = none →
    x.2 = (if t.slotted then [.slot] else []) ++ Pace.alternate x.1.length
  ended : p.Grants → t.deadline = none → ∀ o, t.stage = .done o →
    ∃ answer, o = .answer answer ∧ x.2 = Pace.alternate x.1.length ∧ Concluded c r answer x.1

namespace Spending

variable {r : Request} {url : Url} {w w' : World σ} {t t' : Task} {x : List Try × List Pace}

theorem ofGoing (hu : t.stage.outcome? = none) (hn : ∀ answer, ¬ t.Awaits answer)
    (hs : Spent c.policy r.path t.retry x.1)
    (hp : x.2 = (if t.slotted then [.slot] else []) ++ Pace.alternate x.1.length) :
    Spending p c r t x := by
  refine ⟨fun _ _ => hs, ?_, fun _ => hp, ?_⟩
  · intro credential n sent wake answer hstage
    exact absurd ⟨_, _, _, _, hstage⟩ (hn answer)
  · intro _ _ o ho
    rw [ho] at hu
    cases hu

theorem ofDone {answer : Except Failure Response} (hs : t.stage = .done (.answer answer))
    (he : p.Grants → t.deadline = none →
      x.2 = Pace.alternate x.1.length ∧ Concluded c r answer x.1) : Spending p c r t x := by
  have hdone : t.stage.outcome? ≠ none := by
    rw [hs]
    exact fun h => by cases h
  refine ⟨fun hu => absurd hu hdone, ?_, fun hu => absurd hu hdone, ?_⟩
  · intro credential n sent wake answer hstage
    rw [hs] at hstage
    cases hstage
  · intro hg hd o ho
    cases hs.symm.trans ho
    exact ⟨answer, rfl, he hg hd⟩

theorem start (w : World σ) (r : Request) (url : Url) (deadline : Option Span) :
    Spending p c r (Task.start w w.tasks (.call r url) deadline) ([], []) :=
  .ofGoing rfl (by simp [Task.start, Task.Awaits]) (.nothing _ _) rfl

/-- The last try of a call that awaits an answer, once the answer has come. -/
theorem hear (h : Spending p c r t (Journal.course t.id w.journal)) {credential : Credential}
    {n : Nat} {sent wake : Instant} {answer : Except Failure Response}
    (hs : t.stage = .awaitingAnswer credential n sent wake answer)
    (result : Except Failure Response) :
    ∃ a rest, Journal.hear result (Journal.tries t.id w.journal) = ⟨a, some result⟩ :: rest ∧
      Journal.tries t.id w.journal = ⟨a, none⟩ :: rest ∧
      Spent c.policy r.path t.retry rest ∧ n = rest.length + 1 ∧
      Journal.paces t.id w.journal = Pace.alternate (rest.length + 1) := by
  obtain ⟨a, rest, htries, hspent, hn⟩ := h.awaiting _ _ _ _ _ hs
  have hpaces := h.paces (by rw [hs]; rfl)
  have hslot : t.slotted = false := by
    simp [Task.slotted, hs]
  simp only [Journal.course] at htries hn hpaces
  rw [htries] at hn hpaces
  rw [hslot] at hpaces
  exact ⟨a, rest, by rw [htries]; rfl, htries, hspent, hn, hpaces⟩

theorem move (ha : Accounted p w) (he : Explained p w t) (hg : t.goal = .call r url)
    (h : Spending p c r t (Journal.course t.id w.journal)) (hm : t.Move p c w w' t') :
    Spending p c r t' (Journal.course t.id w'.journal) := by
  have hundone := hm.undone
  cases hm.course hg with
  | waits hj hs hn hn' hu hr =>
    refine .ofGoing hu hn' ?_ ?_
    · rw [hj, hr]
      exact h.going hundone hn
    · rw [hj, hs]
      exact h.paces hundone
  | admitted hj hs hs' hn hn' hu hr =>
    have hpaces := h.paces hundone
    rw [hs] at hpaces
    refine .ofGoing hu hn' ?_ ?_
    · rw [hj, hr]
      exact h.going hundone hn
    · rw [hj, hs']
      exact congrArg (Pace.slot :: ·) hpaces
  | sends hj hs hn hs' hattempt hr =>
    obtain ⟨authorization, hj⟩ := hj
    have hspent := h.going hundone hn
    have hpaces := h.paces hundone
    rw [hs] at hpaces
    have hslot : t'.slotted = false := by
      simp [Task.slotted, hs']
    rw [hj]
    refine ⟨?_, ?_, ?_, ?_⟩
    · intro _ hno
      exact absurd ⟨_, _, _, _, hs'⟩ (hno _)
    · intro credential n sent wake answer hst
      cases hs'.symm.trans hst
      refine ⟨_, _, rfl, ?_, hspent.attempts hattempt⟩
      rw [hr]
      exact hspent
    · intro _
      rw [hslot]
      exact congrArg (Pace.attempt :: ·) hpaces
    · intro _ _ o ho
      rw [hs'] at ho
      cases ho
  | @succeeds credential n sent wake answer b hj hs hb hok hs' hr =>
    obtain ⟨a, rest, hheard, -, hspent, hn, hpaces⟩ := h.hear hs (w.received n sent answer)
    refine .ofDone hs' fun _ _ => ?_
    rw [hj, hheard]
    refine ⟨hpaces, a, _, rest, t.retry, rfl, hspent, .inl ⟨b, hb, hok, ?_, rfl⟩⟩
    rw [World.received_attempt hb, hn]
    rfl
  | @fails credential n sent wake answer f draw hj hs hf hd hs' hr =>
    obtain ⟨a, rest, hheard, -, hspent, hn, hpaces⟩ := h.hear hs (w.received n sent answer)
    refine .ofDone hs' fun _ _ => ?_
    rw [hj, hheard]
    exact ⟨hpaces, a, _, rest, t.retry, rfl, hspent, .inr ⟨f, draw, hf, rfl, hd⟩⟩
  | @again credential n sent wake answer f hj hs hf hagain hs' hn' hu =>
    obtain ⟨a, rest, hheard, -, hspent, hn, hpaces⟩ := h.hear hs (w.received n sent answer)
    refine .ofGoing hu hn' ?_ ?_
    · rw [hj, hheard]
      exact hspent.again hf hagain
    · rw [hj, hheard, hs']
      exact hpaces
  | @unserved f hj hf hs' =>
    refine .ofDone hs' fun hgrants _ => ?_
    -- With a token for every exchange no refresh fails.
    exfalso
    have hfail : ∃ g peer, (p.exchange g peer).1.answer = .error f := by
      rcases hf with hf | ⟨r, wake, hs⟩
      · exact ha.exchanges f (ha.vault f hf)
      · exact he.token r wake _ hs
    obtain ⟨g, peer, hanswer⟩ := hfail
    obtain ⟨token, htoken⟩ := hgrants g peer
    cases htoken.symm.trans hanswer

end Spending

theorem spending_kept : Kept p c (fun w => Accounted p w ∧ w.Recorded) (fun w t =>
    Explained p w t ∧ t.id < w.tasks ∧
      ∀ r url, t.goal = .call r url → Spending p c r t (Journal.course t.id w.journal)) := by
  refine Kept.withView (Q := fun t x => ∀ r url, t.goal = .call r url → Spending p c r t x)
    Journal.own_course explained_kept ?_ ?_ ?_
  · intro w goal deadline r url hg
    cases hg
    exact .start w r url deadline
  · intro w t w' t' ha he h hm r url hg
    rw [hm.goal_eq] at hg
    exact (h r url hg).move ha he hg hm
  · intro w t h hu hd r url hg
    refine .ofDone rfl fun _ hnone => ?_
    have hnone : t.deadline = none := hnone
    rw [hnone] at hd
    cases hd

end Traffic

/-- How a call came to its end, its tries told with the latest first. A retry is made for the sake of the
credential where the try before it was rejected, and counts against the budget otherwise. -/
structure WithinBudget {σ : Type} (p : Peer σ) (c : Setup) (r : Request) (url : Url)
    (answer : Except Failure Response) (tries : List Try) (paces : List Pace) : Prop where
  sent : 1 ≤ tries.length
  bounded : tries.length ≤ c.policy.maxRetries + 2
  retries : tries.tail.countP (!·.rejected) ≤ c.policy.maxRetries
  refreshes : tries.tail.countP (·.rejected) ≤ 1
  slots : paces = Pace.alternate tries.length
  own : ∀ x ∈ tries, ∃ authorization peer elapsed n,
    x.attempt = r.attempt url authorization c.timeout ∧
      x.result = some ((p.send x.attempt peer).1.answer.map (.stamped elapsed n))
  last : ∃ x result, tries.head? = some x ∧ x.result = some result ∧
    match result with
    | .ok a =>
      if a.isSuccess then answer = .ok a ∧ a.attempt = tries.length
      else answer = .error (a.toFailure r.path)
    | .error f => answer = .error f
  exhausted : (∀ x ∈ tries, ∃ result f, x.result = some result ∧
      RetryPolicy.outcome result r.path = .error f ∧ f.isRetryable ∧
      (c.policy.mayResend r ∨ f.neverHandled)) → tries.length = c.policy.maxRetries + 1

theorem Spent.full {p : RetryPolicy} {r : Request} {s : RetryState} {tries : List Try}
    (h : Spent p r.path s tries) (hfull : p.maxRetries ≤ s.retries)
    (hr : ∀ x ∈ tries, ∃ result f, x.result = some result ∧
      RetryPolicy.outcome result r.path = .error f ∧ f.isRetryable) :
    tries.length = p.maxRetries := by
  have hnone : tries.countP (·.rejected) = 0 := by
    refine List.countP_eq_zero.mpr fun x hx ht => ?_
    obtain ⟨result, f, hresult, hf, hretryable⟩ := hr x hx
    simp only [Try.rejected, hresult, Option.any_some] at ht
    obtain ⟨status, m, rfl⟩ := (RetryPolicy.unauthorized_iff hf).mp ht
    cases hretryable
  have hlen := h.length_eq
  rw [← h.rejected, hnone] at hlen
  have hle := h.budget
  omega

theorem RetryPolicy.retries_of_fail {p : RetryPolicy} {r : Request} {f : Failure} {s : RetryState}
    {draw : Nat} (h : p.onFailure f r s draw = (.fail f, s)) (hf : f.isRetryable)
    (hr : p.mayResend r ∨ f.neverHandled) : p.maxRetries ≤ s.retries := by
  obtain ⟨cause, hc⟩ := Option.isSome_iff_exists.mp (p.cause?_of_retryable hf hr)
  rw [p.onFailure_of_budget r s draw (by rintro status m rfl; cases hf), hc] at h
  by_contra hleft
  simp only [if_neg hleft] at h
  cases h

theorem Traffic.Concluded.withinBudget {σ : Type} {p : Peer σ} {c : Setup} {r : Request}
    {url : Url} {answer : Except Failure Response} {t : Task} {tries : List Try}
    {paces : List Pace} (h : Concluded c r answer tries) (ht : Tried p c r url t tries)
    (hp : paces = Pace.alternate tries.length) : WithinBudget p c r url answer tries paces := by
  obtain ⟨a, result, rest, s, rfl, hspent, hend⟩ := h
  have hlen := hspent.length_eq
  have hbudget := hspent.budget
  have hone : (if s.refreshed then 1 else 0) ≤ 1 := by
    split <;> omega
  refine ⟨?_, ?_, ?_, ?_, hp, ?_, ⟨_, result, rfl, rfl, ?_⟩, ?_⟩
  · exact Nat.succ_le_of_lt (Nat.zero_lt_succ _)
  · rw [List.length_cons]
    omega
  · rw [List.tail_cons, hspent.others]
    exact hbudget
  · rw [List.tail_cons, hspent.rejected]
    exact hone
  · intro x hx
    obtain ⟨⟨authorization, hattempt⟩, hanswers⟩ := ht.own x hx
    have hheard : ∃ result, x.result = some result := by
      rcases List.mem_cons.mp hx with rfl | hx
      · exact ⟨result, rfl⟩
      · obtain ⟨result, -, hresult, -⟩ := hspent.failed x hx
        exact ⟨result, hresult⟩
    obtain ⟨result', hresult⟩ := hheard
    obtain ⟨peer, elapsed, n, rfl⟩ := hanswers result' hresult
    exact ⟨authorization, peer, elapsed, n, hattempt, hresult⟩
  · rcases hend with ⟨b, rfl, hok, hn, rfl⟩ | ⟨f, draw, hf, rfl, -⟩
    · simp only [hok, if_true]
      exact ⟨trivial, hn⟩
    · rcases RetryPolicy.outcome_error hf with rfl | ⟨b, rfl, hok, rfl⟩
      · rfl
      · simp [hok]
  · intro hall
    obtain ⟨result', f, hresult, hf, hretryable, hresend⟩ := hall _ List.mem_cons_self
    cases hresult
    rcases hend with ⟨b, rfl, hok, -, -⟩ | ⟨f', draw, hf', -, hd⟩
    · rcases RetryPolicy.outcome_error hf with he | ⟨b', he, hno, -⟩
      · cases he
      · cases he
        rw [hok] at hno
        cases hno
    · cases hf.symm.trans hf'
      have hfull := RetryPolicy.retries_of_fail hd hretryable hresend
      rw [List.length_cons, hspent.full hfull]
      intro x hx
      obtain ⟨result', f', hresult, hf', hretryable', -⟩ := hall x (List.mem_cons_of_mem _ hx)
      exact ⟨result', f', hresult, hf', hretryable'⟩

/-- A call without a deadline comes to its end within its budget, whatever else is carried out with it,
where every refresh ends well, attempts can be counted, and the clock does not run out. -/
theorem World.perform_within_budget {σ : Type} {p : Peer σ} {c : Setup} {q : Quota}
    {date : UtcTime} {credential : Option Credential} {peer : σ} {w w' : World σ} {window : Nat}
    {orders : List Order} {result : Except Fault (List Outcome)}
    (hr : Traffic.Reaches p c ⟨.start date (.ofQuota q) credential peer, []⟩ ⟨w, []⟩)
    (hx : p.Issues w.date) (hm : c.policy.maxRetries + 2 < Width.beyond32)
    (h : w.perform p c window orders = (w', result))
    (hclock : w'.now.nanos + q.period.nanos < Instant.horizon) :
    ∃ outcomes, result = .ok outcomes ∧ ∀ j r url,
      orders[j]? = some ⟨.ofRequest c.base r, none⟩ → r.url c.base = .ok url →
      ∃ answer, outcomes[j]? = some (.answer answer) ∧
        WithinBudget p c r url answer (Journal.tries (w.tasks + j) w'.journal)
          (Journal.paces (w.tasks + j) w'.journal) := by
  obtain ⟨outcomes, rfl⟩ := perform_returns hr hx hm h hclock
  refine ⟨outcomes, rfl, ?_⟩
  intro j r url ho hu
  have hidle := (Idle.start date q credential peer).of_reaches hr
  obtain ⟨ts, t, outcome, hrun, ht, hid, hgoal, hlimit, hdone, hout⟩ := perform_task h hidle ho
  have hall := hr.trans hrun
  have hcall : t.goal = .call r url := by
    rw [hgoal, Goal.ofRequest, hu]
  have hnone : t.deadline = none := Option.isNone_iff_eq_none.mp (by simpa using hlimit)
  have hstage : t.stage = .done outcome := by
    cases hs : t.stage <;> simp_all [Stage.outcome?]
  obtain ⟨-, hspending⟩ := Traffic.spending_kept.reaches hall
    ⟨Traffic.accounted_start p _ _ _ _, Traffic.recorded_start _ _ _ _⟩ (by simp)
  obtain ⟨-, htried⟩ := Traffic.tried_kept.reaches hall (Traffic.recorded_start _ _ _ _) (by simp)
  obtain ⟨answer, rfl, hpaces, hconcluded⟩ :=
    ((hspending t ht).2.2 r url hcall).ended hx.grants hnone outcome hstage
  rw [← hid]
  exact ⟨answer, hout, hconcluded.withinBudget ((htried t ht).2 r url hcall) hpaces⟩

/-- A service that rejects the first credential, and then is out of order. -/
def Peer.failing : Peer Nat where
  send _ n := (⟨.zero, .ok ⟨if n = 0 then 401 else 503, [], [], .zero, 1⟩⟩, n + 1)
  exchange _ n := (⟨.zero, .ok ⟨"token", 3600, none, none, none⟩⟩, n)
  draw n := (0, n)

theorem World.perform_within_budget_failing : ∃ (w' : World Nat) (outcomes : List Outcome)
    (url : Url) (answer : Except Failure Response),
    (World.start (.ofNanos 0) (.ofQuota .standard) none 0).perform .failing (.plain 2) 1
      [⟨.ofRequest (Setup.plain 2).base (.get "families"), none⟩] = (w', .ok outcomes) ∧
    outcomes[0]? = some (.answer answer) ∧ (Journal.tries 0 w'.journal).length = 4 ∧
    WithinBudget .failing (.plain 2) (.get "families") url answer (Journal.tries 0 w'.journal)
      (Journal.paces 0 w'.journal) := by
  have hrun : ∃ w' outcomes,
      (World.start (.ofNanos 0) (.ofQuota .standard) none 0).perform .failing (.plain 2) 1
        [⟨.ofRequest (Setup.plain 2).base (.get "families"), none⟩] = (w', .ok outcomes) ∧
      w'.now.nanos = 2 * nanosPerMilli ∧ (Journal.tries 0 w'.journal).length = 4 :=
    ⟨_, _, rfl, rfl, rfl⟩
  obtain ⟨w', outcomes, h, hnow, hfour⟩ := hrun
  have hissues : Peer.failing.Issues (.ofNanos 0) := fun g peer => ⟨_, _, rfl, rfl⟩
  have hclock : w'.now.nanos + Quota.standard.period.nanos < Instant.horizon := by
    rw [hnow]
    decide
  obtain ⟨url, hurl⟩ : ∃ url, (Request.get "families").url (Setup.plain 2).base = .ok url :=
    ⟨_, rfl⟩
  obtain ⟨outcomes', houtcomes, hall⟩ :=
    perform_within_budget (q := .standard) .refl hissues (by decide) h hclock
  cases houtcomes
  obtain ⟨answer, hanswer, hbudget⟩ := hall 0 (.get "families") url rfl hurl
  exact ⟨w', outcomes, url, answer, h, hanswer, hfour, hbudget⟩

end CatalogClient
