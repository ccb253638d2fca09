import CatalogClient.Pipeline.Schedule
import CatalogClient.Proofs.Pipeline.Traffic
import Mathlib.Data.List.TakeWhile
/-!
The steps that tasks still have before them. Each step of a task that is not refused a slot leaves it
fewer, and a refusal leaves it fewer refusals for as long as nobody gets a slot or has to pause.
-/

namespace CatalogClient

open Schedule (attemptSteps taskSteps)

namespace Instant

theorem nanos_since {s t : Instant} (h : t.nanos < horizon) :
    (t.since s).nanos = t.nanos - s.nanos := by
  have hlt : t.nanos - s.nanos < Width.beyond64 * nanosPerSecond := by
    simp only [horizon, Width.beyond64, nanosPerSecond] at h ⊢
    omega
  simp only [since, Span.ofNanos, dif_pos hlt]

theorem le_timer_since {s t : Instant} (h : t.nanos < horizon) : t ≤ s.timer (t.since s) := by
  have hle := le_timer s (t.since s)
  rw [nanos_since h] at hle
  change t.nanos ≤ (s.timer (t.since s)).nanos
  omega

theorem add?_some {t u : Instant} {d : Span} (h : t.add? d = some u) :
    u.nanos = t.nanos + d.nanos ∧ u.nanos < horizon := by
  simp only [add?] at h
  split at h
  · rename_i hlt
    cases h
    exact ⟨rfl, hlt⟩
  · cases h

end Instant

namespace Limiter

/-- A window holds no more slots than the quota allows, and no pause lasts beyond the horizon. -/
structure Bounded (l : Limiter) : Prop where
  few : l.grants.length ≤ l.quota.limit
  soon : ∀ b, l.blockedUntil = some b → b.nanos < Instant.horizon

def window (l : Limiter) (time : Instant) : List Instant :=
  l.grants.dropWhile fun g => g.nanos + l.quota.period.nanos ≤ time.nanos

/-- How often one who asks at an instant may still be refused: while a pause lasts, and while the
window is full. -/
def refusals (l : Limiter) (time : Instant) : Nat :=
  (if ∃ b, l.blockedUntil = some b ∧ time < b then 1 else 0) +
    if l.quota.limit ≤ (l.window time).length then 1 else 0

theorem refusals_le (l : Limiter) (time : Instant) : l.refusals time ≤ 2 := by
  unfold refusals
  split <;> split <;> omega

theorem refusals_mono {l l' : Limiter} (hq : l'.quota = l.quota) {time : Instant}
    (hb : ∀ b, l'.blockedUntil = some b → l.blockedUntil = some b)
    (hw : (l'.window time).length ≤ (l.window time).length) :
    l'.refusals time ≤ l.refusals time := by
  unfold refusals
  refine Nat.add_le_add ?_ ?_
  · by_cases h : ∃ b, l'.blockedUntil = some b ∧ time < b
    · obtain ⟨b, hsome, hlt⟩ := h
      rw [if_pos ⟨b, hsome, hlt⟩, if_pos ⟨b, hb b hsome, hlt⟩]
    · rw [if_neg h]
      exact Nat.zero_le _
  · rw [hq]
    split <;> split <;> omega

theorem length_window_le {l : Limiter} {s t : Instant} (h : s ≤ t) :
    (l.window t).length ≤ (l.window s).length := by
  have hst : s.nanos ≤ t.nanos := h
  unfold window
  induction l.grants with
  | nil => exact Nat.le_refl _
  | cons g gs ih =>
    by_cases hs : g.nanos + l.quota.period.nanos ≤ s.nanos
    · have ht : g.nanos + l.quota.period.nanos ≤ t.nanos := by omega
      simpa [List.dropWhile_cons, hs, ht] using ih
    · have hle := (List.dropWhile_suffix (l := g :: gs)
        (fun g => decide (g.nanos + l.quota.period.nanos ≤ t.nanos))).length_le
      simpa [List.dropWhile_cons, hs] using hle

theorem length_window_append {l l' : Limiter} (hq : l'.quota = l.quota) {old : List Instant}
    (hg : l.grants = old ++ l'.grants) (time : Instant) :
    (l'.window time).length ≤ (l.window time).length := by
  simp only [window, hg, hq, List.dropWhile_append]
  split
  · exact Nat.le_refl _
  · have hle := (List.dropWhile_suffix (l := l'.grants)
      (fun g => decide (g.nanos + l.quota.period.nanos ≤ time.nanos))).length_le
    rw [List.length_append]
    omega

theorem evict_window {l : Limiter} {now : Instant} {kept : List Instant}
    (h : evict l.quota.period now l.grants = .ok kept) : kept = l.window now := by
  obtain ⟨old, hgs, hold, hhead⟩ := evict_ok h
  have hdrop : old.dropWhile (fun g => decide (g.nanos + l.quota.period.nanos ≤ now.nanos)) = [] :=
    List.dropWhile_eq_nil_iff.mpr fun g hg => decide_eq_true (hold g hg)
  rw [window, hgs, List.dropWhile_append, hdrop]
  cases kept with
  | nil => rfl
  | cons g gs =>
    have hlt := hhead g rfl
    simp [hlt]

theorem Bounded.ofQuota (q : Quota) : (ofQuota q).Bounded := ⟨Nat.zero_le _, by simp [Limiter.ofQuota]⟩

theorem Bounded.evict {l : Limiter} (hl : l.Bounded) {now : Instant} {kept : List Instant}
    (h : Limiter.evict l.quota.period now l.grants = .ok kept) : kept.length ≤ l.quota.limit := by
  obtain ⟨old, hgs, -, -⟩ := evict_ok h
  have := hl.few
  rw [hgs, List.length_append] at this
  omega

theorem Bounded.tryGrant {l l' : Limiter} (hl : l.Bounded) {now : Instant} {a : Admission}
    (h : l.tryGrant now = .ok (a, l')) : l'.Bounded := by
  rcases tryGrant_cases h with ⟨b, -, -, -, rfl⟩ | ⟨-, kept, hk, ⟨hlt, -, rfl⟩ | ⟨-, rfl, -⟩⟩
  · exact hl
  · exact ⟨by simpa using Nat.succ_le_of_lt hlt, by simp⟩
  · exact ⟨hl.evict hk, by simp⟩

theorem Bounded.penalize {l : Limiter} (hl : l.Bounded) (now : Instant) (d : Span) :
    (l.penalize now d).Bounded := by
  unfold Limiter.penalize
  split
  · exact hl
  · rename_i b hb
    have hnew := (Instant.add?_some hb).2
    split
    · refine ⟨hl.few, ?_⟩
      rintro _ ⟨⟩
      exact hnew
    · split
      · refine ⟨hl.few, ?_⟩
        rintro _ ⟨⟩
        exact hnew
      · exact hl

theorem Bounded.act {l l' : Limiter} (hl : l.Bounded) {now : Instant} {a : LimiterAct}
    {mark : Option LimiterMark} (h : l.act now a = .ok (mark, l')) : l'.Bounded := by
  cases a with
  | ask =>
    obtain ⟨admission, ht, -⟩ := act_ask h
    exact hl.tryGrant ht
  | penalize d =>
    cases h
    exact hl.penalize now d
  | available =>
    obtain ⟨n, ht, -⟩ := act_available h
    rcases available_cases ht with rfl | ⟨kept, hk, rfl⟩
    · exact hl
    · exact ⟨hl.evict hk, hl.soon⟩
  | timeUntilAvailable =>
    obtain ⟨d, ht, -⟩ := act_timeUntilAvailable h
    obtain ⟨kept, hk, rfl⟩ := timeUntilAvailable_cases ht
    exact ⟨hl.evict hk, hl.soon⟩

theorem refusals_refused {l l' : Limiter} (hl : l.Bounded) {now : Instant} {d : Span}
    (h : l.tryGrant now = .ok (.refused d, l')) :
    (∀ time, time ≤ now → l'.refusals (now.timer d) < l.refusals time) ∧
      ∀ time, l'.refusals time ≤ l.refusals time := by
  rcases tryGrant_cases h with ⟨b, hb, hlt, hd, rfl⟩ | ⟨hpast, kept, hk, hg | ⟨hfull, rfl, wait, hw, hd⟩⟩
  · refine ⟨?_, fun time => Nat.le_refl _⟩
    intro time htime
    cases hd
    have hwake : b ≤ now.timer (b.since now) := Instant.le_timer_since (hl.soon b hb)
    have hopen : ¬ ∃ b', l'.blockedUntil = some b' ∧ now.timer (b.since now) < b' := by
      rintro ⟨b', hb', hlt'⟩
      cases hb.symm.trans hb'
      exact absurd hlt' (Nat.not_lt.mpr hwake)
    have hshut : ∃ b', l'.blockedUntil = some b' ∧ time < b' :=
      ⟨b, hb, Nat.lt_of_le_of_lt htime hlt⟩
    have hlen := length_window_le (l := l')
      (show time ≤ now.timer (b.since now) from Nat.le_trans (Nat.le_trans htime (Nat.le_of_lt hlt)) hwake)
    unfold refusals
    rw [if_neg hopen, if_pos hshut]
    split <;> split <;> omega
  · cases hg.2.1
  · cases hd
    obtain ⟨old, hgs, -, -⟩ := evict_ok hk
    refine ⟨?_, ?_⟩
    · intro time htime
      have hbefore : l.quota.limit ≤ (l.window time).length := by
        have hle := length_window_le (l := l) htime
        rw [evict_window hk] at hfull
        omega
      have hafter : ¬ l.quota.limit ≤ (window ⟨l.quota, kept, none⟩ (now.timer d)).length := by
        cases kept with
        | nil =>
          have := l.quota.limit_pos
          simp only [List.length_nil] at hfull
          omega
        | cons g gs =>
          have hwait : ¬ (g :: gs).length < l.quota.limit := by omega
          simp only [windowWait, if_neg hwait] at hw
          split at hw
          · cases hw
          · rename_i passed hp
            cases hw
            obtain ⟨hsum, hin⟩ := Instant.add?_some hp
            have hle : passed ≤ now.timer (passed.since now) := Instant.le_timer_since hin
            have hgone : g.nanos + l.quota.period.nanos ≤ (now.timer (passed.since now)).nanos :=
              hsum ▸ hle
            have hshort := (List.dropWhile_suffix (l := gs) (fun g =>
              decide (g.nanos + l.quota.period.nanos ≤ (now.timer (passed.since now)).nanos))).length_le
            have hfew := hl.evict hk
            simp only [window, List.dropWhile_cons, decide_eq_true hgone, if_true]
            simp only [List.length_cons] at hfew
            omega
      have hopen : ¬ ∃ b, (⟨l.quota, kept, none⟩ : Limiter).blockedUntil = some b ∧
          now.timer d < b := by simp
      unfold refusals
      rw [if_neg hopen, if_neg hafter, if_pos hbefore]
      omega
    · intro time
      have hle : (window ⟨l.quota, kept, none⟩ time).length ≤ (l.window time).length := by
        refine length_window_append ?_ hgs time
        rfl
      refine refusals_mono ?_ ?_ hle
      · rfl
      · simp

end Limiter

def RetryState.left (m : Nat) (s : RetryState) : Nat :=
  (m - s.retries) + if s.refreshed then 0 else 1

def Refresh.steps (m : Nat) (r : Refresh) : Nat :=
  2 * (m - r.retries) + if r.fallback.isSome then 2 * m + 2 else 0

def Stage.steps (m : Nat) : Stage → Nat
  | .asking | .admitting _ | .pausing _ => attemptSteps m
  | .seeking => 4 * m + 8
  | .queued _ => 4 * m + 7
  | .exchanging r | .resting r _ => r.steps m + 4
  | .awaitingToken r .. => r.steps m + 3
  | .sending _ => 2
  | .awaitingAnswer .. => 1
  | .done _ => 0

namespace Task

/-- The steps of a task, but for those at which it is refused a slot. -/
def effort (m : Nat) (t : Task) : Nat :=
  (if t.stage.outcome?.isSome then 0 else t.retry.left m * attemptSteps m) + t.stage.steps m

/-- How often a task may be refused a slot before anybody gets one. -/
def refusals (l : Limiter) (t : Task) : Nat :=
  match t.stage with
  | .admitting wake => l.refusals wake
  | _ => 3

theorem refusals_le (l : Limiter) (t : Task) : t.refusals l ≤ 3 := by
  unfold refusals
  split
  · exact Nat.le_succ_of_le (l.refusals_le _)
  · exact Nat.le_refl _

theorem effort_le (m : Nat) (t : Task) :
    t.effort m ≤ t.retry.left m * attemptSteps m + t.stage.steps m := by
  unfold effort
  split
  · exact Nat.add_le_add_right (Nat.zero_le _) _
  · exact Nat.le_refl _

theorem effort_eq (m : Nat) {t : Task} {stage : Stage} (hs : t.stage = stage)
    (hu : stage.outcome? = none) :
    t.effort m = t.retry.left m * attemptSteps m + stage.steps m := by
  simp [effort, hs, hu]

theorem effort_stage_lt {m : Nat} {t : Task} {stage stage' : Stage} (hs : t.stage = stage)
    (hu : stage.outcome? = none) (h : stage'.steps m < stage.steps m) :
    effort m { t with stage := stage' } < t.effort m := by
  rw [effort_eq m hs hu]
  exact Nat.lt_of_le_of_lt (effort_le m _) (Nat.add_lt_add_left h _)

theorem effort_pos (m : Nat) {t : Task} (h : t.stage.outcome? = none) : 0 < t.effort m := by
  rw [effort_eq m rfl h]
  refine Nat.lt_of_lt_of_le ?_ (Nat.le_add_left _ _)
  cases hs : t.stage <;> simp_all [Stage.outcome?, Stage.steps, attemptSteps]

theorem obtained_steps_le (m : Nat) (t : Task) (result : Except Failure Credential) :
    (t.obtained result).steps m ≤ 2 := by
  obtain ⟨id, goal, started, deadline, stage, retry⟩ := t
  cases goal <;> cases result <;> simp [obtained, Stage.steps]

theorem effort_obtained_lt {m : Nat} {t : Task} {stage : Stage} {result : Except Failure Credential}
    (hs : t.stage = stage) (hu : stage.outcome? = none) (h : 2 < stage.steps m) :
    effort m { t with stage := t.obtained result } < t.effort m :=
  effort_stage_lt hs hu (Nat.lt_of_le_of_lt (obtained_steps_le m t result) h)

theorem admitted_steps_le (m : Nat) (t : Task) : t.admitted.steps m ≤ 4 * m + 8 := by
  obtain ⟨id, goal, started, deadline, stage, retry⟩ := t
  cases goal <;> simp [admitted, Stage.steps]

theorem effort_start {σ : Type} (m : Nat) (w : World σ) (id : Nat) (goal : Goal)
    (deadline : Option Span) : effort m (start w id goal deadline) ≤ taskSteps m := by
  have hsteps : (start w id goal deadline).stage.steps m ≤ attemptSteps m := by
    cases goal <;> simp [start, Stage.steps, attemptSteps]
  calc effort m (start w id goal deadline)
      ≤ (m + 1) * attemptSteps m + (start w id goal deadline).stage.steps m := effort_le m _
    _ ≤ (m + 1) * attemptSteps m + attemptSteps m := Nat.add_le_add_left hsteps _
    _ = taskSteps m := (Nat.succ_mul (m + 1) (attemptSteps m)).symm

theorem effort_again_lt {m : Nat} {t : Task} {credential : Credential} {attempt : Nat}
    {sent wake : Instant} {answer : Except Failure Response} {s : RetryState} {stage : Stage}
    (hs : t.stage = .awaitingAnswer credential attempt sent wake answer)
    (hleft : s.left m < t.retry.left m) (hstage : stage.steps m = attemptSteps m) :
    effort m { t with stage := stage, retry := s } < t.effort m := by
  have hmul : (s.left m + 1) * attemptSteps m ≤ t.retry.left m * attemptSteps m :=
    Nat.mul_le_mul_right _ hleft
  rw [Nat.succ_mul] at hmul
  rw [effort_eq m hs rfl]
  refine Nat.lt_succ_of_le (Nat.le_trans (effort_le m _) ?_)
  rw [hstage]
  exact hmul

theorem firstRefresh_steps_le {σ : Type} (m : Nat) (c : Setup) (w : World σ) :
    (firstRefresh c w).steps m ≤ 4 * m + 2 := by
  unfold firstRefresh
  split <;> simp [Refresh.steps] <;> omega

theorem pause_steps (m : Nat) (wake : Instant) (delay : Span) :
    (if delay.isZero then .asking else .pausing wake : Stage).steps m = attemptSteps m := by
  split <;> rfl

theorem Asks.steps_eq {t : Task} {now : Instant} (h : t.Asks now) (m : Nat) :
    t.stage.outcome? = none ∧ t.stage.steps m = attemptSteps m := by
  rcases h with ⟨hs, -⟩ | ⟨wake, -, hs | hs⟩ <;> rw [hs] <;> exact ⟨rfl, rfl⟩

section

variable {σ : Type} {p : Peer σ} {c : Setup} {w w' : World σ} {t t' : Task}

theorem Move.bounded (hm : t.Move p c w w' t') (hl : w.limiter.Bounded) : w'.limiter.Bounded := by
  cases hm with
  | refused ha hgrant => exact hl.tryGrant hgrant
  | granted ha hgrant => exact hl.tryGrant hgrant
  | slow _ _ _ _ _ _ _ => exact hl.penalize _ _
  | _ => exact hl

theorem Move.effort_lt (h : t.Move p c w w' t') :
    t'.effort c.policy.maxRetries < t.effort c.policy.maxRetries ∨
      t'.effort c.policy.maxRetries = t.effort c.policy.maxRetries ∧ t.Asks w.now ∧
        ∃ d l, w.limiter.tryGrant w.now = .ok (.refused d, l) ∧ w' = { w with limiter := l } ∧
          t'.stage = .admitting (w.now.timer d) := by
  generalize hm : c.policy.maxRetries = m
  cases h with
  | stray hs hg =>
    exact .inl (effort_stage_lt hs rfl (by simp [Stage.steps, attemptSteps]))
  | refused ha hl =>
    obtain ⟨hu, hsteps⟩ := ha.steps_eq m
    refine .inr ⟨?_, ha, _, _, hl, rfl, rfl⟩
    rw [effort_eq m rfl hu, hsteps]
    rfl
  | granted ha hl =>
    obtain ⟨hu, hsteps⟩ := ha.steps_eq m
    have hle := admitted_steps_le m t
    refine .inl (effort_stage_lt rfl hu ?_)
    simp only [hsteps, attemptSteps]
    omega
  | found hs hu =>
    exact .inl (effort_obtained_lt hs rfl (by simp only [Stage.steps]; omega))
  | lined hs hu =>
    exact .inl (effort_stage_lt hs rfl (by simp only [Stage.steps]; omega))
  | shared hs hh hu =>
    exact .inl (effort_obtained_lt hs rfl (by simp only [Stage.steps]; omega))
  | sharedFailure hs hh hu hg hf =>
    exact .inl (effort_obtained_lt hs rfl (by simp only [Stage.steps]; omega))
  | refresh hs hh hu hg =>
    have hle := firstRefresh_steps_le m c w
    exact .inl (effort_stage_lt hs rfl (by simp only [Stage.steps]; omega))
  | exchange he =>
    rcases he with hs | ⟨wake, -, hs⟩
    · exact .inl (effort_stage_lt hs rfl (by simp only [Stage.steps]; omega))
    · exact .inl (effort_stage_lt hs rfl (by simp only [Stage.steps]; omega))
  | issued hs hw hi =>
    exact .inl (effort_obtained_lt hs rfl (by simp only [Stage.steps]; omega))
  | rest hs hw hf hr =>
    exact .inl (effort_stage_lt hs rfl (by simp only [Stage.steps, Refresh.steps]; omega))
  | fallBack hs hw hf hr =>
    exact .inl (effort_stage_lt hs rfl (by simp [Stage.steps, Refresh.steps, hr]; omega))
  | refreshFailed hs hw hr hf =>
    exact .inl (effort_obtained_lt hs rfl (by simp only [Stage.steps]; omega))
  | send hs hg ha =>
    exact .inl (effort_stage_lt hs rfl (by simp only [Stage.steps]; omega))
  | succeed hs hw hg ha hok =>
    exact .inl (effort_stage_lt hs rfl (by simp only [Stage.steps]; omega))
  | fail hs hw hg hf hd =>
    exact .inl (effort_stage_lt hs rfl (by simp only [Stage.steps]; omega))
  | reject hs hw hg hf ha hr =>
    exact .inl (effort_again_lt hs (by simp [RetryState.left, hr]) rfl)
  | slow hs hw hg hf hc hr hd =>
    exact .inl (effort_again_lt hs (by simp only [RetryState.left]; omega) (pause_steps m _ _))
  | retry hs hw hg hf hc hr hd =>
    exact .inl (effort_again_lt hs (by simp only [RetryState.left]; omega) (pause_steps m _ _))
  | idle hs hg =>
    rcases hs with hs | ⟨attempt, sent, wake, answer, hs⟩
    · exact .inl (effort_stage_lt hs rfl (by simp only [Stage.steps]; omega))
    · exact .inl (effort_stage_lt hs rfl (by simp only [Stage.steps]; omega))

end

end Task

end CatalogClient
