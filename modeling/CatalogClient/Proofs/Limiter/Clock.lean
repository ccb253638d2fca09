import CatalogClient.Proofs.Client.Assembly
import CatalogClient.Proofs.Limiter.Lineup
import CatalogClient.Proofs.Limiter.Reports
/-!
Quotas and the range of the clock. A limiter has an answer to everybody, up to some reading of the clock, exactly if a
period that begins with that reading ends within the clock; and then all that it does to anybody is a delay.
-/

namespace CatalogClient

/-- Whatever is done with a limiter of the quota up to a reading of the clock has an answer. -/
def Quota.AnsweredUntil (q : Quota) (latest : Instant) : Prop :=
  ∀ acts : List (Instant × LimiterAct), (∀ x ∈ acts, x.1 ≤ latest) →
    ∃ rs l, (Limiter.ofQuota q).replies acts = .ok (rs, l)

theorem Quota.period_of_make {limit : Nat} {period : Span} {q : Quota} (h : Quota.make limit period = .ok q) :
    q.period = period := by
  unfold make at h
  split at h
  · split at h
    · cases h
      rfl
    · cases h
  · cases h

namespace Limiter

variable {q : Quota} {l : Limiter} {now latest g : Instant} {period : Span} {a : LimiterAct}

/-- Who asks now is never turned away: whatever its refusals, it has a slot when the wait that is announced is over. -/
def Delays (l : Limiter) (now : Instant) : Prop :=
  ∃ d l₁ n l₂, l.timeUntilAvailable now = .ok (d, l₁) ∧ n ≤ 2 ∧
    Lineup.Acquires l now n ⟨now.nanos + d.nanos⟩ l₂

theorem Delays.intro (hl : l.Bounded) (ht : l.InTime) (now : Instant) : l.Delays now := by
  obtain ⟨d, l₁, htold⟩ := ht.timeUntilAvailable now
  obtain ⟨n, hn, t, l₂, hacquires, hopen⟩ := Lineup.acquires_at_opening hl ht now
  have hsame : t = ⟨now.nanos + d.nanos⟩ := congrArg Instant.mk (hopen.trans (timeUntilAvailable_eq hl htold).symm)
  exact ⟨d, l₁, n, l₂, htold, hn, hsame ▸ hacquires⟩

theorem tryGrant_ofQuota (q : Quota) (now : Instant) :
    (ofQuota q).tryGrant now = .ok (.granted, ⟨q, [now], none⟩) := by
  simp only [tryGrant, block?, ofQuota, Option.filter_none, evict, bind, Except.bind]
  exact if_pos q.limit_pos

theorem evict_overlong (h : Instant.horizon ≤ g.nanos + period.nanos) : evict period now [g] = .error .clock := by
  have hnone : g.add? period = none := if_neg (Nat.not_lt.mpr h)
  simp only [evict, hnone]

/-- Once a slot is granted whose period leads beyond the clock, nobody has an answer any more. -/
theorem reply_overlong (h : Instant.horizon ≤ g.nanos + q.period.nanos) (ha : ∀ d, a ≠ .penalize d) :
    reply ⟨q, [g], none⟩ now a = .error .clock := by
  cases a with
  | penalize d => exact absurd rfl (ha d)
  | ask => simp only [reply, tryGrant, block?, Option.filter_none, evict_overlong h, bind, Except.bind]
  | available => simp only [reply, available, block?, Option.filter_none, evict_overlong h, bind, Except.bind]
  | timeUntilAvailable => simp only [reply, timeUntilAvailable, evict_overlong h, bind, Except.bind]

theorem replies_overlong (h : Instant.horizon ≤ now.nanos + q.period.nanos) (ha : ∀ d, a ≠ .penalize d) :
    (ofQuota q).replies [(now, .ask), (now, a)] = .error .clock := by
  have hask : (ofQuota q).reply now .ask = .ok (.admission .granted, ⟨q, [now], none⟩) :=
    except_bind_ok.mpr ⟨_, tryGrant_ofQuota q now, rfl⟩
  simp only [replies, hask, reply_overlong h ha, bind, Except.bind]

theorem answeredUntil_iff (q : Quota) (latest : Instant) :
    q.AnsweredUntil latest ↔ latest.nanos + q.period.nanos < Instant.horizon := by
  constructor
  · intro hanswered
    by_contra hlong
    have hnow : latest ≤ latest := Nat.le_refl _
    obtain ⟨rs, l, hrs⟩ := hanswered [(latest, .ask), (latest, .ask)] (by simp [hnow])
    rw [replies_overlong (Nat.le_of_not_lt hlong) fun d h => by cases h] at hrs
    cases hrs
  · intro hin acts hacts
    have hnone : ∀ g ∈ (ofQuota q).grants, g ≤ latest := by simp [ofQuota]
    obtain ⟨rs, l, hrs, -⟩ := replies_past (Bounded.ofQuota q) hnone hin hacts
    exact ⟨rs, l, hrs⟩

theorem delays_of_answered {acts : List (Instant × LimiterAct)} {rs : List LimiterReply}
    (hin : now.nanos + q.period.nanos < Instant.horizon) (hacts : ∀ x ∈ acts, x.1 ≤ now)
    (h : (ofQuota q).replies acts = .ok (rs, l)) : l.Delays now := by
  have hnone : ∀ g ∈ (ofQuota q).grants, g ≤ now := by simp [ofQuota]
  obtain ⟨rs', l', hrs, hq, hl, hpast⟩ := replies_past (Bounded.ofQuota q) hnone hin hacts
  cases hrs.symm.trans h
  exact .intro hl (inTime_of_past (hq ▸ hin) hpast) now

/-- A limiter has an answer for everybody until some reading exactly if a period that begins then ends within the
clock. Otherwise the first slot may be the last answer there is; until then nobody who asks is more than delayed. -/
theorem answers_within_clock {limit : Nat} (hq : Quota.make limit period = .ok q) (latest : Instant) :
    (q.AnsweredUntil latest ↔ latest.nanos + period.nanos < Instant.horizon) ∧
    (Instant.horizon ≤ latest.nanos + period.nanos → ∀ a, (∀ d, a ≠ .penalize d) →
      (ofQuota q).replies [(latest, .ask), (latest, a)] = .error .clock) ∧
    (latest.nanos + period.nanos < Instant.horizon → ∀ acts rs l, (∀ x ∈ acts, x.1 ≤ latest) →
      (ofQuota q).replies acts = .ok (rs, l) → l.Delays latest) ∧
    ∀ c : Config, c.validate = .ok () → c.rateLimitPeriodSeconds < Width.beyond64 →
      ∃ q, Quota.make c.rateLimitCalls c.rateLimitPeriod = .ok q ∧
        (q.AnsweredUntil latest ↔ latest.nanos + c.rateLimitPeriodSeconds * nanosPerSecond < Instant.horizon) := by
  obtain rfl : q.period = period := Quota.period_of_make hq
  refine ⟨answeredUntil_iff q latest, fun hlong a ha => replies_overlong hlong ha,
    fun hin acts rs l hacts hrs => delays_of_answered hin hacts hrs, fun c hc hwidth => ?_⟩
  obtain ⟨q', hq'⟩ := (Config.valid_of_validate hc).quota_ok
  have hperiod : q'.period.nanos = c.rateLimitPeriodSeconds * nanosPerSecond :=
    (congrArg Span.nanos (Quota.period_of_make hq')).trans (Span.nanos_ofSeconds hwidth)
  exact ⟨q', hq', hperiod ▸ answeredUntil_iff q' latest⟩

/-- Settings with one call a period of so many seconds. -/
def oneCallIn (seconds : Nat) : Config :=
  { Config.make "https://pim.example.com" "id" "secret" with rateLimitCalls := 1, rateLimitPeriodSeconds := seconds }

/-- The longest period with which a clock that has just started gets along, and then for less than a second. -/
theorem answers_within_clock_briefly : (oneCallIn 9223372036854775806).validate = .ok () ∧
    ∃ q, Quota.make (oneCallIn 9223372036854775806).rateLimitCalls (oneCallIn 9223372036854775806).rateLimitPeriod =
        .ok q ∧
      q.AnsweredUntil ⟨999999999⟩ ∧ ¬ q.AnsweredUntil ⟨1000000000⟩ ∧
      ∃ rs l, (ofQuota q).replies [(⟨5⟩, .ask)] = .ok (rs, l) ∧ l.grants = [⟨5⟩] ∧ l.Delays ⟨999999999⟩ := by
  have hvalid : (oneCallIn 9223372036854775806).validate = .ok () := by decide +kernel
  obtain ⟨q, hq⟩ := (Config.valid_of_validate hvalid).quota_ok
  have hfirst : (ofQuota q).replies [(⟨5⟩, .ask)] = .ok ([.admission .granted], ⟨q, [⟨5⟩], none⟩) := by
    simp only [replies, reply, tryGrant_ofQuota, bind, Except.bind, pure, Except.pure]
  have hacts : ∀ x ∈ [((⟨5⟩, .ask) : Instant × LimiterAct)], x.1 ≤ ⟨999999999⟩ := by decide
  obtain ⟨hanswered, -, hdelays, -⟩ := answers_within_clock hq ⟨999999999⟩
  have hbeyond := (answers_within_clock hq ⟨1000000000⟩).1
  exact ⟨hvalid, q, hq, hanswered.mpr (by decide), fun h => absurd (hbeyond.mp h) (by decide),
    _, _, hfirst, rfl, hdelays (by decide) _ _ _ hacts hfirst⟩

/-- Settings with the longest period are valid, and from the first slot on nobody has an answer. -/
theorem second_caller_unanswered : (oneCallIn (Width.beyond64 - 1)).validate = .ok () ∧
    ∃ q, Quota.make (oneCallIn (Width.beyond64 - 1)).rateLimitCalls (oneCallIn (Width.beyond64 - 1)).rateLimitPeriod =
        .ok q ∧
      (ofQuota q).replies [(.start, .ask)] = .ok ([.admission .granted], ⟨q, [.start], none⟩) ∧
      (ofQuota q).replies [(.start, .ask), (.start, .ask)] = .error .clock := by
  refine ⟨by decide +kernel, ⟨1, .ofSeconds (Width.beyond64 - 1), by decide, by decide⟩, ?_, ?_, ?_⟩ <;>
    decide +kernel

end Limiter

end CatalogClient
