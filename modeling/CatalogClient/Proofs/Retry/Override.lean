import CatalogClient.Proofs.Pipeline.Move
/-!
What a call says about being sent again, on failures after which the service may have carried it out.
It takes the place of the policy's default, but not of the method: a method that may be repeated is
repeated, even if the call forbids it.
-/

namespace CatalogClient

/-- The service may have carried out the request that ended so. -/
def Failure.isAmbiguous : Failure → Bool
  | .api .. => true
  | .network _ _ requestSent => requestSent
  | _ => false

def Decision.isRetry : Decision → Bool
  | .retry .. => true
  | .succeed _ | .fail _ => false

namespace RetryPolicy

variable {p : RetryPolicy} {r : Request} {result : Except Failure Response} {f : Failure}
  {s : RetryState}

theorem cause?_of_ambiguous (p : RetryPolicy) (r : Request) (hf : f.isAmbiguous) :
    ∃ cause, p.cause? r f = if p.mayResend r then some cause else none := by
  cases f with
  | api status m => exact ⟨.server, rfl⟩
  | network m timedOut requestSent =>
    cases hf
    exact ⟨.network, by simp [cause?]⟩
  | _ => cases hf

theorem retryAfter?_of_ambiguous (hf : f.isAmbiguous) : f.retryAfter? = none := by
  cases f with
  | api status m => rfl
  | network m timedOut requestSent => rfl
  | _ => cases hf

/-- With budget left, an ambiguous failure is followed by a retry exactly when the call may be sent
again. -/
theorem evaluate_of_ambiguous (h : outcome result r.path = .error f) (hf : f.isAmbiguous)
    (hs : s.retries < p.maxRetries) (draw : Nat) :
    ∃ cause, p.evaluate result r s draw = if p.mayResend r
      then (.retry (p.backoff.delay s.retries draw) cause f, { s with retries := s.retries + 1 })
      else (.fail f, s) := by
  obtain ⟨cause, hcause⟩ := p.cause?_of_ambiguous r hf
  have hkept : ∀ status m, f ≠ .authentication status m := by
    rintro status m rfl
    cases hf
  refine ⟨cause, ?_⟩
  rw [evaluate_of_error p h, onFailure_of_budget p r s draw hkept, hcause,
    retryAfter?_of_ambiguous hf]
  by_cases hm : p.mayResend r
  · simp [hm, Nat.not_le.mpr hs]
  · simp [hm]

theorem cause?_congr {q : RetryPolicy} (h : q.mayResend r = p.mayResend r) (f : Failure) :
    q.cause? r f = p.cause? r f := by
  cases f with
  | api status m => simp only [cause?, h]
  | network m timedOut requestSent => simp only [cause?, h]
  | _ => rfl

/-- Where the call says whether it may be sent again, the policy's default is not asked. -/
theorem evaluate_withRetryWrites (p : RetryPolicy) (result : Except Failure Response) (r : Request)
    (s : RetryState) (draw : Nat) (allowed default : Bool) :
    { p with retryWrites := default }.evaluate result (r.withRetryWrites allowed) s draw =
      p.evaluate result (r.withRetryWrites allowed) s draw := by
  have hcause := cause?_congr (p := p) (q := { p with retryWrites := default })
    (r := r.withRetryWrites allowed) rfl
  simp only [evaluate]
  cases outcome result (r.withRetryWrites allowed).path with
  | ok a => rfl
  | error f =>
    cases f with
    | authentication status m => rfl
    | _ => simp only [onFailure, hcause]

theorem mayResend_withRetryWrites (p : RetryPolicy) (r : Request) (allowed : Bool) :
    p.mayResend (r.withRetryWrites allowed) = (r.method.isIdempotent || allowed) := rfl

/-- A call's own word stands for the policy's default, and it decides alone unless it forbids what
its method allows. -/
theorem override_decides (p : RetryPolicy) (allowed : Bool)
    (h : outcome result r.path = .error f) (hf : f.isAmbiguous) (hs : s.retries < p.maxRetries)
    (draw : Nat) :
    let decided := p.evaluate result (r.withRetryWrites allowed) s draw
    (decided.1.isRetry ↔ r.method.isIdempotent ∨ allowed) ∧
      ((decided.1.isRetry ↔ allowed) ↔ (r.method.isIdempotent → allowed)) ∧
      (∃ cause, decided = if r.method.isIdempotent || allowed
        then (.retry (p.backoff.delay s.retries draw) cause f, { s with retries := s.retries + 1 })
        else (.fail f, s)) ∧
      ∀ default, { p with retryWrites := default }.evaluate result (r.withRetryWrites allowed) s draw =
        decided := by
  intro decided
  obtain ⟨cause, hdecided⟩ : ∃ cause, decided = if r.method.isIdempotent || allowed
      then (.retry (p.backoff.delay s.retries draw) cause f, { s with retries := s.retries + 1 })
      else (.fail f, s) := by
    rw [← mayResend_withRetryWrites p r allowed]
    exact evaluate_of_ambiguous (r := r.withRetryWrites allowed) h hf hs draw
  have hretry : decided.1.isRetry ↔ r.method.isIdempotent ∨ allowed := by
    rw [hdecided]
    cases r.method.isIdempotent <;> cases allowed <;> simp [Decision.isRetry]
  refine ⟨hretry, ?_, ⟨cause, hdecided⟩, evaluate_withRetryWrites p result r s draw allowed⟩
  rw [hretry]
  cases r.method.isIdempotent <;> cases allowed <;> simp

/-- A write that forbids a retry to a policy that would allow it, after the service has failed. -/
theorem override_decides_write : ∃ (p : RetryPolicy) (r : Request) (a : Response) (f : Failure),
    r.method = .post ∧ p.retryWrites = true ∧ outcome (.ok a) r.path = .error f ∧ f.isAmbiguous ∧
    RetryState.start.retries < p.maxRetries ∧
    ((p.evaluate (.ok a) (r.withRetryWrites false) .start 0).1.isRetry ↔ false = true) := by
  let p : RetryPolicy := ⟨3, .standard, true⟩
  let a : Response := ⟨500, [], [], .zero, 1⟩
  let f : Failure := a.toFailure "/x"
  have h : outcome (.ok a) (Request.post "/x").path = .error f := rfl
  have hf : f.isAmbiguous := by decide +kernel
  obtain ⟨-, hiff, -⟩ := override_decides p false h hf (s := .start) (by decide) 0
  exact ⟨p, .post "/x", a, f, rfl, rfl, h, hf, by decide, hiff.mpr nofun⟩

/-- A request that forbids a retry, and is sent again because its method may be repeated. -/
theorem forbidden_and_retried : ∃ (p : RetryPolicy) (a : Response) (f : Failure),
    outcome (.ok a) "/x" = .error f ∧ f.isAmbiguous ∧ RetryState.start.retries < p.maxRetries ∧
    (p.evaluate (.ok a) ((Request.get "/x").withRetryWrites false) .start 0).1.isRetry := by
  refine ⟨⟨3, .standard, false⟩, ⟨500, [], [], .zero, 1⟩, _, rfl, ?_, ?_, ?_⟩ <;> decide +kernel

end RetryPolicy

end CatalogClient
