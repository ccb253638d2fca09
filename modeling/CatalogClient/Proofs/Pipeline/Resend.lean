import CatalogClient.Proofs.Pipeline.Runs
import CatalogClient.Proofs.Pipeline.Tries
/-!
Writes that must not be sent twice: each attempt behind which another one follows was turned away, or
never reached the service.
-/

namespace CatalogClient

namespace Failure

/-- A failure of the connection, or of the preparation of a request. -/
def ofConnection : Failure → Bool
  | .network .. | .validation none .. | .config _ | .decode _ | .internal _ => true
  | _ => false

end Failure

/-- What the service answers is an answer, whatever its status, and a failure is one of the connection
or of the preparation of the request. -/
def Peer.Faithful {σ : Type} (p : Peer σ) : Prop :=
  ∀ a peer f, (p.send a peer).1.answer = .error f → f.ofConnection

namespace Response

/-- The service did not carry out a request that ended so: it turned it away, or never got it. -/
def turnedAway : Except Failure Response → Bool
  | .ok a => a.status = 401 || a.status = 403 || a.status = 429
  | .error (.network _ _ requestSent) => !requestSent
  | .error _ => false

theorem turnedAway_stamped (answer : Except Failure Response) (elapsed : Span) (n : Nat) :
    turnedAway (answer.map (.stamped elapsed n)) = turnedAway answer := by
  cases answer <;> rfl

theorem toFailure_authentication {a : Response} {path : String} {status : Option Nat} {m : String}
    (h : a.toFailure path = .authentication status m) : a.status = 401 ∨ a.status = 403 := by
  unfold toFailure at h
  split at h <;> first | exact .inl ‹_› | exact .inr ‹_› | cases h

theorem toFailure_rateLimited {a : Response} {path : String} {d : Option Span} {m : String}
    (h : a.toFailure path = .rateLimited d m) : a.status = 429 := by
  unfold toFailure at h
  split at h <;> first | assumption | cases h

theorem toFailure_ne_network (a : Response) (path : String) (m : String)
    (timedOut requestSent : Bool) : a.toFailure path ≠ .network m timedOut requestSent := by
  unfold toFailure
  split <;> simp

end Response

/-- The service may have carried out the request of an attempt, for all that is known. -/
def Try.mayCount (x : Try) : Bool := !x.result.any Response.turnedAway

namespace RetryPolicy

theorem turnedAway_of_again {p : RetryPolicy} {r : Request} {answer : Except Failure Response}
    {f : Failure} (hw : p.mayResend r = false) (hp : ∀ f, answer = .error f → f.ofConnection)
    (h : outcome answer r.path = .error f)
    (ha : (∃ status m, f = .authentication status m) ∨ (p.cause? r f).isSome) :
    Response.turnedAway answer := by
  rcases ha with ⟨status, m, rfl⟩ | hc
  · rcases outcome_error h with rfl | ⟨a, rfl, -, hf⟩
    · cases hp _ rfl
    · rcases Response.toFailure_authentication hf.symm with hs | hs <;>
        simp [Response.turnedAway, hs]
  · cases f with
    | rateLimited d m =>
      rcases outcome_error h with rfl | ⟨a, rfl, -, hf⟩
      · cases hp _ rfl
      · simp [Response.turnedAway, Response.toFailure_rateLimited hf.symm]
    | network m timedOut requestSent =>
      rcases outcome_error h with rfl | ⟨a, rfl, -, hf⟩
      · cases requestSent with
        | false => rfl
        | true => simp [cause?, hw] at hc
      · exact absurd hf.symm (a.toFailure_ne_network r.path m timedOut requestSent)
    | api status m => simp [cause?, hw] at hc
    | _ => cases hc

end RetryPolicy

namespace Traffic

variable {σ : Type} {p : Peer σ} {c : Setup}

/-- Attempts were turned away, all of them while another one may follow. -/
structure Cautious (t : Task) (tries : List Try) : Prop where
  earlier : ∀ x ∈ tries.tail, x.mayCount = false
  all : t.stage.outcome? = none → (∀ answer, ¬ t.Awaits answer) → ∀ x ∈ tries, x.mayCount = false

theorem Cautious.move {r : Request} {url : Url} {w w' : World σ} {t t' : Task} (hp : p.Faithful)
    (hw : c.policy.mayResend r = false) (hg : t.goal = .call r url)
    (hq : Tried p c r url t (Journal.tries t.id w.journal))
    (h : Cautious t (Journal.tries t.id w.journal)) (hm : t.Move p c w w' t') :
    Cautious t' (Journal.tries t.id w'.journal) := by
  have hu := hm.undone
  cases hm.tries hg with
  | quiet hj hs hs' hd =>
    rw [hj]
    exact ⟨h.earlier, fun _ _ => h.all hu hs⟩
  | sends hj hs hs' ha =>
    rw [hj]
    exact ⟨h.all hu hs, fun _ hno => absurd hs' (hno _)⟩
  | @hears answer elapsed n hj hs hs' hd =>
    obtain ⟨a, rest, htries, peer, hpeer⟩ := hq.awaits answer hs
    have hheard : Journal.tries t.id w'.journal =
        ⟨a, some (answer.map (.stamped elapsed n))⟩ :: rest := by
      rw [hj, htries]
      rfl
    have hrest : ∀ x ∈ rest, x.mayCount = false := by
      have hearlier := h.earlier
      rw [htries] at hearlier
      exact hearlier
    rw [hheard]
    refine ⟨hrest, ?_⟩
    intro hnone _ x hx
    rcases List.mem_cons.mp hx with rfl | hx
    · rcases hd with ⟨b, -, -, hst⟩ | ⟨f, hf, hst | ⟨-, ha⟩⟩
      · rw [hst] at hnone
        cases hnone
      · rw [hst] at hnone
        cases hnone
      -- Only here does the call go on after an answer.
      · have hfaith : ∀ f, answer.map (Response.stamped elapsed n) = .error f →
            f.ofConnection := by
          intro f he
          cases answer with
          | ok b => cases he
          | error f' =>
            cases he
            exact hp a peer f hpeer
        have hturned := RetryPolicy.turnedAway_of_again hw hfaith hf ha
        simp [Try.mayCount, hturned]
    · exact hrest x hx

theorem cautious_kept (hp : p.Faithful) {r : Request} (url : Url)
    (hw : c.policy.mayResend r = false) : Kept p c World.Recorded (fun w t => t.id < w.tasks ∧
      (t.goal = .call r url → Tried p c r url t (Journal.tries t.id w.journal) ∧
        Cautious t (Journal.tries t.id w.journal))) := by
  refine Kept.ofTries (Q := fun t tries => t.goal = .call r url → Tried p c r url t tries ∧
    Cautious t tries) ?_ ?_ ?_
  · intro w goal deadline _
    exact ⟨.start w goal deadline, ⟨by simp, by simp⟩⟩
  · intro w t w' t' h hm hg
    rw [hm.goal_eq] at hg
    obtain ⟨htried, hcautious⟩ := h hg
    exact ⟨htried.move hg hm, hcautious.move hp hw hg htried hm⟩
  · intro w t tries h _ _ hg
    obtain ⟨htried, hcautious⟩ := h hg
    exact ⟨htried.expire w, hcautious.earlier, fun hnone => by cases hnone⟩

/-- Of the attempts of a write that nobody allowed to be repeated, each but the last was turned away, or
never reached the service: at most one can have been carried out. -/
theorem earlier_tries_turnedAway (hp : p.Faithful) {date : UtcTime} {limiter : Limiter}
    {credential : Option Credential} {peer : σ} {s : Traffic σ}
    (hr : Reaches p c ⟨.start date limiter credential peer, []⟩ s) {t : Task} (ht : t ∈ s.tasks)
    {r : Request} {url : Url} (hg : t.goal = .call r url)
    (hm : r.method = .post ∨ r.method = .patch)
    (ho : r.retryWrites.getD c.policy.retryWrites = false) :
    (∀ x ∈ Journal.tries t.id s.world.journal,
      ∃ authorization, x.attempt = r.attempt url authorization c.timeout) ∧
    (∀ x ∈ (Journal.tries t.id s.world.journal).tail, ∃ peer elapsed n,
      x.result = some ((p.send x.attempt peer).1.answer.map (.stamped elapsed n)) ∧
        Response.turnedAway (p.send x.attempt peer).1.answer) ∧
    (Journal.tries t.id s.world.journal).countP (·.mayCount) ≤ 1 := by
  have hw : c.policy.mayResend r = false := by
    rcases hm with hm | hm <;> simp [RetryPolicy.mayResend, hm, ho, Method.isIdempotent]
  obtain ⟨-, hall⟩ := (cautious_kept hp url hw).reaches hr
    (recorded_start date limiter credential peer) (by simp)
  obtain ⟨htried, hcautious⟩ := (hall t ht).2 hg
  generalize Journal.tries t.id s.world.journal = tries at htried hcautious
  refine ⟨fun x hx => (htried.own x hx).1, ?_, ?_⟩
  · intro x hx
    have hcount := hcautious.earlier x hx
    have hmem : x ∈ tries := List.mem_of_mem_tail hx
    cases hresult : x.result with
    | none => simp [Try.mayCount, hresult] at hcount
    | some result =>
      obtain ⟨peer, elapsed, n, rfl⟩ := (htried.own x hmem).2 result hresult
      refine ⟨peer, elapsed, n, rfl, ?_⟩
      simpa [Try.mayCount, hresult, Response.turnedAway_stamped] using hcount
  · cases tries with
    | nil => exact Nat.zero_le _
    | cons x rest =>
      have hrest : rest.countP (·.mayCount) = 0 :=
        List.countP_eq_zero.mpr fun y hy => by simp [hcautious.earlier y hy]
      rw [List.countP_cons, hrest]
      split <;> simp

/-- A service that rejects the first credential and carries out what is sent with the next. -/
def rejecting : Peer Nat where
  send _ n := (⟨.zero, .ok ⟨if n = 0 then 401 else 201, [], [], .zero, 1⟩⟩, n + 1)
  exchange _ n := (⟨.zero, .ok ⟨"token", 3600, none, none, none⟩⟩, n)
  draw n := (0, n)

theorem rejecting_faithful : rejecting.Faithful := by
  intro a peer f h
  cases h

theorem earlier_tries_turnedAway_rejected :
    ∃ (s : Traffic Nat) (t : Task) (r : Request) (url : Url),
      t.goal = .call r url ∧ r.method = .post ∧ (Journal.tries t.id s.world.journal).length = 2 ∧
      (∀ x ∈ (Journal.tries t.id s.world.journal).tail, ∃ peer elapsed n,
        x.result = some ((rejecting.send x.attempt peer).1.answer.map (.stamped elapsed n)) ∧
          Response.turnedAway (rejecting.send x.attempt peer).1.answer) ∧
      (Journal.tries t.id s.world.journal).countP (·.mayCount) ≤ 1 := by
  have hrun : ∃ s, (Schedule.ofOrders (World.start (.ofNanos 0) (.ofQuota .standard) none 0) 1
      [⟨.call (.post "families") (Setup.plain 3).base, none⟩]).run rejecting (Setup.plain 3) 40 =
        .ok s ∧ (s.tasks.map (·.goal)) = [.call (.post "families") (Setup.plain 3).base] ∧
      (s.tasks.map fun t => (Journal.tries t.id s.world.journal).length) = [2] :=
    ⟨_, rfl, rfl, rfl⟩
  obtain ⟨s, hs, hgoals, htries⟩ := hrun
  have hr := ofOrders_reaches hs
  cases htasks : s.tasks with
  | nil => simp [htasks] at hgoals
  | cons t ts =>
    rw [htasks] at hgoals htries
    have hg : t.goal = .call (.post "families") (Setup.plain 3).base := List.head_eq_of_cons_eq hgoals
    have htwo : (Journal.tries t.id s.world.journal).length = 2 := List.head_eq_of_cons_eq htries
    have hmem : t ∈ s.tasks := by simp [htasks]
    obtain ⟨-, hearlier, hcount⟩ := earlier_tries_turnedAway rejecting_faithful hr hmem hg (.inl rfl) rfl
    exact ⟨⟨s.world, s.tasks⟩, t, _, _, hg, rfl, htwo, hearlier, hcount⟩

end Traffic

end CatalogClient
