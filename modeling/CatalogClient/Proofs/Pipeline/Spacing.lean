import CatalogClient.Proofs.Pipeline.Pause
/-!
How far apart the attempts of a call are. After a rejected credential the next attempt may follow at
once; after an answer that names a pause it follows when that is over; and otherwise it waits the longer
the more retries the call has made. No pause is longer than an hour, neither for the call nor for all.
-/

namespace CatalogClient

namespace Response

/-- The pause that a result asks for. -/
def hint? : Except Failure Response → Option Span
  | .ok a => if a.status = 429 then a.retryAfter? else none
  | .error f => f.retryAfter?

theorem hint?_eq {result : Except Failure Response} {path : String} {f : Failure}
    (h : RetryPolicy.outcome result path = .error f) : f.retryAfter? = hint? result := by
  rcases RetryPolicy.outcome_error h with rfl | ⟨a, rfl, -, rfl⟩
  · rfl
  · by_cases hs : a.status = 429
    · obtain ⟨m, hf⟩ := toFailure_slow hs path
      rw [hf, hint?, if_pos hs]
      rfl
    · rw [hint?, if_neg hs]
      cases hf : a.toFailure path with
      | rateLimited d m => exact absurd (a.toFailure_rateLimited hf) hs
      | _ => rfl

theorem hint?_of_unauthorized {result : Except Failure Response} (h : unauthorized result) :
    hint? result = none := by
  cases result with
  | ok a =>
    refine if_neg fun hs => ?_
    simp [unauthorized, hs] at h
  | error f =>
    cases f with
    | authentication status m => rfl
    | _ => cases h

/-- A number of seconds in a header, to the nearest nanosecond, but no more than the longest pause. -/
theorem pause?_of_seconds {text : String} {x : Decimal.Binary64}
    (h : Decimal.readFloat? (Text.trim text) = some x) (hx : x.isFinite)
    (hn : ¬ x.isNegative ∨ x.isZero) :
    ∃ d, pause? text = some d ∧
      d.nanos = min (Decimal.Binary64.roundDiv (x.ratio.1 * nanosPerSecond) x.ratio.2)
        longestPause.nanos := by
  have hvalid : ¬ (¬ x.isFinite ∨ (x.isNegative ∧ ¬ x.isZero)) := by
    rintro (hinf | ⟨hneg, hpos⟩)
    · exact hinf hx
    · exact hn.elim (absurd hneg) (fun hz => absurd hz hpos)
  simp only [pause?, h, Option.bind_eq_bind, Option.bind_some, if_neg hvalid]
  rw [Span.ofBinary64?, if_pos ⟨hx, hn⟩, Span.ofNanos?]
  generalize Decimal.Binary64.roundDiv (x.ratio.1 * nanosPerSecond) x.ratio.2 = n
  by_cases hin : n < Width.beyond64 * nanosPerSecond
  · rw [dif_pos hin]
    exact ⟨_, rfl, Span.nanos_min _ _⟩
  · rw [dif_neg hin]
    refine ⟨_, rfl, (Nat.min_eq_right ?_).symm⟩
    have hlong : longestPause.nanos ≤ Width.beyond64 * nanosPerSecond := by decide
    omega

end Response

namespace RetryPolicy

/-- The pause between a failed attempt and the next, the call having made so many retries. -/
def pauseAfter (p : RetryPolicy) (result : Except Failure Response) (retries draw : Nat) : Span :=
  if Response.unauthorized result then .zero
  else min ((Response.hint? result).getD (p.backoff.delay retries draw)) longestPause

/-- What the pause after a failed attempt has to be. -/
structure Paused (p : RetryPolicy) (result : Except Failure Response) (retries draw : Nat) (d : Span) :
    Prop where
  rejected : Response.unauthorized result → d = .zero
  asked : ∀ a text x, result = .ok a → a.status = 429 → a.header? "retry-after" = some text →
    Decimal.readFloat? (Text.trim text) = some x → x.isFinite → (¬ x.isNegative ∨ x.isZero) →
    d.nanos = min (Decimal.Binary64.roundDiv (x.ratio.1 * nanosPerSecond) x.ratio.2)
      longestPause.nanos
  told : ∀ hint, Response.hint? result = some hint → d = min hint longestPause
  backedOff : Response.unauthorized result = false → Response.hint? result = none →
    d = min (p.backoff.delay retries draw) longestPause
  bounded : d ≤ longestPause

theorem pauseAfter_le (p : RetryPolicy) (result : Except Failure Response) (retries draw : Nat) :
    p.pauseAfter result retries draw ≤ longestPause := by
  rw [pauseAfter]
  split
  · exact Nat.zero_le _
  · exact Span.min_le_right _ _

theorem paused (p : RetryPolicy) (result : Except Failure Response) (retries draw : Nat) :
    p.Paused result retries draw (p.pauseAfter result retries draw) := by
  have htold : ∀ hint, Response.hint? result = some hint →
      p.pauseAfter result retries draw = min hint longestPause := by
    intro hint hh
    have hauth : ¬ Response.unauthorized result := by
      intro hu
      rw [Response.hint?_of_unauthorized hu] at hh
      cases hh
    rw [pauseAfter, if_neg hauth, hh, Option.getD_some]
  refine ⟨?_, ?_, htold, ?_, p.pauseAfter_le result retries draw⟩
  · intro hu
    exact if_pos hu
  · rintro a text x rfl hs htext hx hfinite hsign
    obtain ⟨d, hd, hnanos⟩ := Response.pause?_of_seconds hx hfinite hsign
    have hhint : Response.hint? (.ok a) = some d := by
      rw [Response.hint?, if_pos hs, Response.retryAfter?, htext, Option.bind_some, hd]
    rw [htold d hhint, Span.nanos_min, hnanos]
    exact Nat.min_eq_left (Nat.min_le_right _ _)
  · intro hu hh
    rw [pauseAfter, hu, hh]
    rfl

theorem pauseAfter_of_cause {p : RetryPolicy} {result : Except Failure Response} {r : Request}
    {f : Failure} {cause : RetryCause} (h : outcome result r.path = .error f)
    (hc : p.cause? r f = some cause) (retries draw : Nat) : p.pauseAfter result retries draw =
      min (f.retryAfter?.getD (p.backoff.delay retries draw)) longestPause := by
  have hauth : ¬ Response.unauthorized result := by
    intro hu
    obtain ⟨status, m, rfl⟩ := (unauthorized_iff h).mp hu
    cases hc
  rw [pauseAfter, if_neg hauth, Response.hint?_eq h]

end RetryPolicy

/-- With its slot, and with its request, an attempt begins. -/
def Event.begins : Event → Bool
  | .granted _ | .sent .. => true
  | _ => false

namespace Journal

def own (i : Nat) (journal : List Entry) : List Entry :=
  journal.filter fun e => e.event.task? = some i

theorem own_own : Own own := by
  intro i e journal h
  exact List.filter_cons_of_neg (by simpa using h)

theorem own_append (i : Nat) (es journal : List Entry) :
    own i (es ++ journal) = own i es ++ own i journal :=
  List.filter_append _ _

theorem own_cons {i : Nat} {e : Entry} (h : e.event.task? = some i) (journal : List Entry) :
    own i (e :: journal) = e :: own i journal :=
  List.filter_cons_of_pos (by simpa using h)

theorem tries_own (i : Nat) (journal : List Entry) : tries i (own i journal) = tries i journal := by
  induction journal with
  | nil => rfl
  | cons e journal ih =>
    by_cases h : e.event.task? = some i
    · rw [own_cons h]
      obtain ⟨time, event⟩ := e
      cases event with
      | sent j a => simp only [tries, ih]
      | answered j result => simp only [tries, ih]
      | _ => exact ih
    · rw [own_own i e journal h, tries_of_ne h, ih]

theorem retriesBefore_own (i : Nat) (journal : List Entry) :
    retriesBefore i (own i journal) = retriesBefore i journal := by
  rw [retriesBefore, retriesBefore, tries_own]

theorem of_own_eq {i : Nat} {journal later earlier : List Entry} {e : Entry}
    (h : own i journal = later ++ e :: earlier) :
    ∃ later' earlier', journal = later' ++ e :: earlier' ∧ own i later' = later ∧
      own i earlier' = earlier := by
  obtain ⟨before, rest, rfl, hbefore, hrest⟩ := List.filter_eq_append_iff.mp h
  obtain ⟨between, earlier', rfl, hbetween, -, hearlier⟩ := List.filter_eq_cons_iff.mp hrest
  refine ⟨before ++ between, earlier', by rw [List.append_assoc], ?_, hearlier⟩
  have hnone : own i between = [] := List.filter_eq_nil_iff.mpr hbetween
  rw [own_append, hnone, List.append_nil]
  exact hbefore

/-- A task that heard an answer at `time` and has to pause for `d`: what it does later begins no sooner,
what it will do next no sooner than that either, and it made everybody else pause no less. -/
structure Heeds (i : Nat) (time : Instant) (d : Span) (ready : Option Nat) (later : List Entry) :
    Prop where
  begun : ∀ e ∈ later, e.event.begins → time.nanos + d.nanos ≤ e.time.nanos
  next : ∀ n ∈ ready, time.nanos + d.nanos ≤ n
  penalty : ∀ rest d', later = rest ++ [⟨time, .penalized i d'⟩] → d' = d

theorem Heeds.cons {i : Nat} {time : Instant} {d : Span} {n : Nat} {later : List Entry}
    (h : Heeds i time d (some n) later) {e : Entry} (ht : e.event.begins → n ≤ e.time.nanos)
    (hp : later = [] → ∀ d, e.event ≠ .penalized i d) : Heeds i time d (some n) (e :: later) := by
  refine ⟨?_, h.next, ?_⟩
  · intro x hx hbegins
    rcases List.mem_cons.mp hx with rfl | hx
    · exact Nat.le_trans (h.next n rfl) (ht hbegins)
    · exact h.begun x hx hbegins
  · intro rest d' hl
    cases rest with
    | nil =>
      obtain ⟨rfl, hnil⟩ := List.cons.inj hl
      exact absurd rfl (hp hnil d')
    | cons x rest => exact h.penalty rest d' (List.cons.inj hl).2

theorem Heeds.mono {i : Nat} {time : Instant} {d : Span} {n : Nat} {later : List Entry}
    (h : Heeds i time d (some n) later) {ready : Option Nat} (hr : ∀ n' ∈ ready, n ≤ n') :
    Heeds i time d ready later :=
  ⟨h.begun, fun n' hn => Nat.le_trans (h.next n rfl) (hr n' hn), h.penalty⟩

end Journal

namespace Traffic

variable {σ : Type} {p : Peer σ} {c : Setup}

/-- The entries of one task keep the pauses, and it imposes pauses only with an answer. -/
structure Spaced (p : Peer σ) (policy : RetryPolicy) (i : Nat) (ready : Option Nat)
    (es : List Entry) : Prop where
  heeded : ∀ later time result earlier, es = later ++ ⟨time, .answered i result⟩ :: earlier →
    ∃ peer, Journal.Heeds i time
      (policy.pauseAfter result (Journal.retriesBefore i earlier) (p.draw peer).1) ready later
  penalties : ∀ later time d earlier, es = later ++ ⟨time, .penalized i d⟩ :: earlier →
    ∃ result rest, earlier = ⟨time, .answered i result⟩ :: rest

namespace Spaced

variable {policy : RetryPolicy} {i n : Nat} {ready : Option Nat} {es : List Entry}

theorem nothing (ready : Option Nat) : Spaced p policy i ready [] := by
  refine ⟨?_, ?_⟩
  · intro later time result earlier hes
    cases later <;> cases hes
  · intro later time d earlier hes
    cases later <;> cases hes

theorem mono (h : Spaced p policy i (some n) es) (hr : ∀ n' ∈ ready, n ≤ n') :
    Spaced p policy i ready es := by
  refine ⟨fun later time result earlier hes => ?_, h.penalties⟩
  obtain ⟨peer, hheeds⟩ := h.heeded later time result earlier hes
  exact ⟨peer, hheeds.mono hr⟩

theorem cons (h : Spaced p policy i (some n) es) {e : Entry} (he : e.event.begins → n ≤ e.time.nanos)
    (ha : ∀ result, e.event ≠ .answered i result) (hp : ∀ d, e.event ≠ .penalized i d) :
    Spaced p policy i (some n) (e :: es) := by
  refine ⟨?_, ?_⟩
  · intro later time result earlier hes
    cases later with
    | nil =>
      obtain ⟨rfl, -⟩ := List.cons.inj hes
      exact absurd rfl (ha result)
    | cons x later =>
      obtain ⟨rfl, hold⟩ := List.cons.inj hes
      obtain ⟨peer, hheeds⟩ := h.heeded later time result earlier hold
      exact ⟨peer, hheeds.cons he fun _ => hp⟩
  · intro later time d earlier hes
    cases later with
    | nil =>
      obtain ⟨rfl, -⟩ := List.cons.inj hes
      exact absurd rfl (hp d)
    | cons x later => exact h.penalties later time d earlier (List.cons.inj hes).2

theorem answer (h : Spaced p policy i (some n) es) {now : Instant} (hn : n ≤ now.nanos) (peer : σ)
    {result : Except Failure Response} {pause : Span}
    (hpause : pause = policy.pauseAfter result (Journal.retriesBefore i es) (p.draw peer).1)
    {news : List Entry} (hnews : news = [] ∨ news = [⟨now, .penalized i pause⟩])
    (hr : ∀ n' ∈ ready, now.nanos + pause.nanos ≤ n') :
    Spaced p policy i ready (news ++ ⟨now, .answered i result⟩ :: es) := by
  have hready : ∀ n' ∈ ready, n ≤ n' := fun n' hn' => by
    have hlate := hr n' hn'
    omega
  -- the answers before this one: neither it nor its pause for everybody is the beginning of an attempt
  have hold : ∀ later time result' earlier, es = later ++ ⟨time, .answered i result'⟩ :: earlier →
      ∃ peer, Journal.Heeds i time
        (policy.pauseAfter result' (Journal.retriesBefore i earlier) (p.draw peer).1) ready
        (news ++ ⟨now, .answered i result⟩ :: later) := by
    intro later time result' earlier hes
    obtain ⟨peer', hheeds⟩ := h.heeded later time result' earlier hes
    have hheard : Journal.Heeds i time _ (some n) (⟨now, .answered i result⟩ :: later) :=
      hheeds.cons nofun nofun
    refine ⟨peer', Journal.Heeds.mono ?_ hready⟩
    rcases hnews with rfl | rfl
    · exact hheard
    · exact hheard.cons nofun nofun
  -- this answer: what follows it so far is its own pause for everybody
  have hnew : Journal.Heeds i now pause ready news := by
    rcases hnews with rfl | rfl
    · exact ⟨by simp, hr, by simp⟩
    · refine ⟨by simp [Event.begins], hr, ?_⟩
      intro rest d' hl
      have hsplit : [] ++ [⟨now, .penalized i pause⟩] = rest ++ [(⟨now, .penalized i d'⟩ : Entry)] := hl
      obtain ⟨-, hlast⟩ := List.append_inj' hsplit rfl
      cases hlast
      rfl
  refine ⟨?_, ?_⟩
  · intro later time result' earlier hes
    rcases List.append_eq_append_iff.mp hes with ⟨mid, rfl, hmid⟩ | ⟨mid, hlast, hmid⟩
    · cases mid with
      | nil =>
        cases hmid
        rw [List.append_nil]
        exact ⟨peer, hpause ▸ hnew⟩
      | cons x mid =>
        obtain ⟨rfl, hes'⟩ := List.cons.inj hmid
        exact hold mid time result' earlier hes'
    · cases mid with
      | nil =>
        cases hmid
        rw [← List.append_nil later, ← hlast]
        exact ⟨peer, hpause ▸ hnew⟩
      | cons x mid =>
        obtain ⟨rfl, -⟩ := List.cons.inj hmid
        have hmem : (⟨time, .answered i result'⟩ : Entry) ∈ news :=
          hlast ▸ List.mem_append_right _ List.mem_cons_self
        rcases hnews with rfl | rfl
        · cases hmem
        · cases List.mem_singleton.mp hmem
  · intro later time d earlier hes
    rcases List.append_eq_append_iff.mp hes with ⟨mid, rfl, hmid⟩ | ⟨mid, hlast, hmid⟩
    · cases mid with
      | nil => cases hmid
      | cons x mid => exact h.penalties mid time d earlier (List.cons.inj hmid).2
    · cases mid with
      | nil => cases hmid
      | cons x mid =>
        obtain ⟨rfl, hearlier⟩ := List.cons.inj hmid
        have hmem : (⟨time, .penalized i d⟩ : Entry) ∈ news :=
          hlast ▸ List.mem_append_right _ List.mem_cons_self
        rcases hnews with rfl | rfl
        · cases hmem
        · cases List.mem_singleton.mp hmem
          have hlen := congrArg List.length hlast
          simp only [List.length_append, List.length_cons, List.length_nil] at hlen
          cases List.length_eq_zero_iff.mp (show mid.length = 0 by omega)
          exact ⟨result, es, hearlier⟩

end Spaced

end Traffic

namespace Task

variable {σ : Type} {p : Peer σ} {c : Setup} {w w' : World σ} {t t' : Task}

/-- When a task may go on. -/
def ready (t : Task) (now : Instant) : Option Nat :=
  match t.stage with
  | .done _ => none
  | .pausing wake => some (max wake.nanos now.nanos)
  | _ => some now.nanos

/-- Neither an answer nor a pause for everybody. -/
def plain : Event → Bool
  | .answered .. | .penalized .. => false
  | _ => true

/-- What a step of a task means for the distance between its attempts. -/
inductive Move.Spaces (p : Peer σ) (c : Setup) (w w' : World σ) (t t' : Task) : Prop
  | passes (events : List Event) (he : events.all plain)
    (hj : w'.journal = events.map (⟨w.now, ·⟩) ++ w.journal)
    (hr : t.ready w.now = some w.now.nanos) (hs : ∀ wake, t'.stage ≠ .pausing wake)
  | hears {credential : Credential} {n : Nat} {sent wake : Instant}
    {answer : Except Failure Response} {pause : Span} (news : List Entry)
    (hs : t.stage = .awaitingAnswer credential n sent wake answer)
    (hg : ∃ r url, t.goal = .call r url)
    (hj : Journal.own t.id w'.journal =
      news ++ ⟨w.now, .answered t.id (w.received n sent answer)⟩ :: Journal.own t.id w.journal)
    (hp : pause = c.policy.pauseAfter (w.received n sent answer) t.retry.retries (p.draw w.peer).1)
    (hn : news = [] ∨ news = [⟨w.now, .penalized t.id pause⟩])
    (hs' : t'.stage.outcome? ≠ none ∨
      t'.stage = if pause.isZero then .asking else .pausing (w.now.timer pause))

theorem Asks.ready {now : Instant} (h : t.Asks now) : t.ready now = some now.nanos := by
  rcases h with ⟨hs, -⟩ | ⟨wake, hw, hs | hs⟩
  · simp [Task.ready, hs]
  · simp [Task.ready, hs]
  · have hw : wake.nanos ≤ now.nanos := hw
    simp [Task.ready, hs, hw]

theorem ready_of_undone (h : t.stage.outcome? = none) (now : Instant) :
    ∃ n, t.ready now = some n := by
  unfold ready
  cases hs : t.stage with
  | done o =>
    rw [hs] at h
    cases h
  | _ => exact ⟨_, rfl⟩

theorem le_ready_of_paused {now : Instant} {pause : Span} (h : t.stage.outcome? ≠ none ∨
      t.stage = if pause.isZero then .asking else .pausing (now.timer pause)) :
    ∀ n ∈ t.ready now, now.nanos + pause.nanos ≤ n := by
  intro n hn
  unfold ready at hn
  rcases h with h | h
  · cases hs : t.stage with
    | done o =>
      rw [hs] at hn
      cases hn
    | _ =>
      rw [hs] at h
      exact absurd rfl h
  · by_cases hz : pause.isZero
    · rw [h, if_pos hz] at hn
      cases hn
      have hzero : pause.nanos = 0 := of_decide_eq_true hz
      omega
    · rw [h, if_neg hz] at hn
      cases hn
      exact Nat.le_trans (now.le_timer pause) (Nat.le_max_left _ _)

theorem obtained_ne_pausing (t : Task) (result : Except Failure Credential) (wake : Instant) :
    t.obtained result ≠ .pausing wake := by
  unfold obtained
  split <;> simp

theorem admitted_ne_pausing (t : Task) (wake : Instant) : t.admitted ≠ .pausing wake := by
  unfold admitted
  split <;> simp

theorem Move.Spaces.ofStage {stage : Stage} (events : List Event) (he : events.all plain)
    (hj : w'.journal = events.map (⟨w.now, ·⟩) ++ w.journal) (hs : t.stage = stage)
    (hr : Task.ready { t with stage := stage } w.now = some w.now.nanos)
    (hs' : ∀ wake, t'.stage ≠ .pausing wake) : Move.Spaces p c w w' t t' := by
  refine .passes events he hj ?_ hs'
  simp only [Task.ready, hs] at hr ⊢
  exact hr

theorem Move.spaces (h : t.Move p c w w' t') : Move.Spaces p c w w' t t' := by
  cases h with
  | stray hs hg => exact .ofStage [] rfl rfl hs rfl nofun
  | refused ha hl => exact .passes [] rfl rfl ha.ready nofun
  | granted ha hl => exact .passes [_] rfl rfl ha.ready t.admitted_ne_pausing
  | found hs hu => exact .ofStage [_] rfl rfl hs rfl (t.obtained_ne_pausing _)
  | lined hs hu => exact .ofStage [] rfl rfl hs rfl nofun
  | shared hs hh hu => exact .ofStage [_] rfl rfl hs rfl (t.obtained_ne_pausing _)
  | sharedFailure hs hh hu hg hf => exact .ofStage [_] rfl rfl hs rfl (t.obtained_ne_pausing _)
  | refresh hs hh hu hg => exact .ofStage [] rfl rfl hs rfl nofun
  | exchange he =>
    rcases he with hs | ⟨wake, -, hs⟩
    · exact .ofStage [_] rfl rfl hs rfl nofun
    · exact .ofStage [_] rfl rfl hs rfl nofun
  | issued hs hw hi => exact .ofStage [_, _, _] rfl rfl hs rfl (t.obtained_ne_pausing _)
  | rest hs hw hf hr => exact .ofStage [_] rfl rfl hs rfl nofun
  | fallBack hs hw hf hr => exact .ofStage [_] rfl rfl hs rfl nofun
  | refreshFailed hs hw hr hf => exact .ofStage [_, _, _] rfl rfl hs rfl (t.obtained_ne_pausing _)
  | send hs hg ha => exact .ofStage [_] rfl rfl hs rfl nofun
  | idle hs hg =>
    rcases hs with hs | ⟨attempt, sent, wake, answer, hs⟩
    · exact .ofStage [] rfl rfl hs rfl nofun
    · exact .ofStage [] rfl rfl hs rfl nofun
  | succeed hs hw hg ha hok =>
    refine .hears [] hs ⟨_, _, hg⟩ ?_ rfl (.inl rfl) (.inl nofun)
    rw [ha]
    exact Journal.own_cons rfl _
  | fail hs hw hg hf hd =>
    exact .hears [] hs ⟨_, _, hg⟩ (Journal.own_cons rfl _) rfl (.inl rfl) (.inl nofun)
  | reject hs hw hg hf ha hr =>
    refine .hears [] hs ⟨_, _, hg⟩ ?_ rfl (.inl rfl) (.inr ?_)
    · exact (Journal.own_own _ _ _ fun hown => by cases hown).trans (Journal.own_cons rfl _)
    · rw [RetryPolicy.pauseAfter, if_pos ((RetryPolicy.unauthorized_iff hf).mpr ha)]
      rfl
  | slow hs hw hg hf hc hr hd =>
    have hpause := RetryPolicy.pauseAfter_of_cause hf hc t.retry.retries (p.draw w.peer).1
    refine .hears [_] hs ⟨_, _, hg⟩ ?_ (hd.trans hpause.symm) (.inr rfl) (.inr rfl)
    exact (Journal.own_cons rfl _).trans (congrArg _ (Journal.own_cons rfl _))
  | retry hs hw hg hf hc hr hd =>
    obtain ⟨cause, hc⟩ : ∃ cause, c.policy.cause? _ _ = some cause :=
      hc.elim (fun hc => ⟨_, hc⟩) (fun hc => ⟨_, hc⟩)
    have hpause := RetryPolicy.pauseAfter_of_cause hf hc t.retry.retries (p.draw w.peer).1
    exact .hears [] hs ⟨_, _, hg⟩ (Journal.own_cons rfl _) (hd.trans hpause.symm) (.inl rfl)
      (.inr rfl)

end Task

namespace Traffic

variable {σ : Type} {p : Peer σ} {c : Setup} {w w' : World σ} {t t' : Task}

/-- A task keeps its pauses, and one that pauses does so for what it heard last. -/
structure Resting (p : Peer σ) (policy : RetryPolicy) (now : Instant) (t : Task) (es : List Entry) :
    Prop where
  spaced : Spaced p policy t.id (t.ready now) es
  sleep : ∀ wake, t.stage = .pausing wake → ∃ later time result earlier peer,
    es = later ++ ⟨time, .answered t.id result⟩ :: earlier ∧
      (∀ e ∈ later, ∃ d, e.event = .penalized t.id d) ∧
      wake = time.timer
        (policy.pauseAfter result (Journal.retriesBefore t.id earlier) (p.draw peer).1)

theorem le_ready {now : Instant} : ∀ n ∈ t.ready now, now.nanos ≤ n := by
  intro n hn
  unfold Task.ready at hn
  split at hn <;> cases hn
  · exact Nat.le_max_right _ _
  · exact Nat.le_refl _

theorem Resting.later {policy : RetryPolicy} {now time : Instant} {es : List Entry}
    (hle : now ≤ time) (h : Resting p policy now t es) : Resting p policy time t es := by
  refine ⟨?_, h.sleep⟩
  have hle : now.nanos ≤ time.nanos := hle
  have hspaced := h.spaced
  unfold Task.ready at hspaced ⊢
  split at hspaced
  · exact hspaced
  · refine hspaced.mono ?_
    rintro n' ⟨⟩
    omega
  · refine hspaced.mono ?_
    rintro n' ⟨⟩
    exact hle

theorem Resting.told {policy : RetryPolicy} {now : Instant} {es : List Entry}
    (h : Resting p policy now t es) : Spaced p policy t.id none es := by
  have hspaced := h.spaced
  cases hn : t.ready now with
  | none => exact hn ▸ hspaced
  | some n => exact (hn ▸ hspaced).mono nofun

theorem Resting.passes {policy : RetryPolicy} {es : List Entry} (h : Resting p policy w.now t es)
    {news : List Entry} (he : ∀ e ∈ news, Task.plain e.event ∧ e.time = w.now)
    (hr : t.ready w.now = some w.now.nanos) (hid : t'.id = t.id)
    (hs : ∀ wake, t'.stage ≠ .pausing wake) : Resting p policy w.now t' (news ++ es) := by
  refine ⟨?_, fun wake hw => absurd hw (hs wake)⟩
  rw [hid]
  refine Spaced.mono (n := w.now.nanos) ?_ le_ready
  have hspaced := hr ▸ h.spaced
  clear hr
  -- the clock stands still during a step: no new entry is earlier than the task was ready
  induction news with
  | nil => exact hspaced
  | cons e news ih =>
    obtain ⟨hplain, htime⟩ := he e List.mem_cons_self
    refine (ih fun x hx => he x (List.mem_cons_of_mem _ hx)).cons ?_ ?_ ?_
    · intro _
      rw [htime]
    · intro result hevent
      rw [hevent] at hplain
      cases hplain
    · intro d hevent
      rw [hevent] at hplain
      cases hplain

theorem Resting.move (ht : ∀ r url, t.goal = .call r url →
      Spending p c r t (Journal.course t.id w.journal))
    (h : Resting p c.policy w.now t (Journal.own t.id w.journal)) (hm : t.Move p c w w' t') :
    Resting p c.policy w.now t' (Journal.own t.id w'.journal) := by
  have hid := hm.id_eq
  cases hm.spaces with
  | passes events he hj hr hs =>
    rw [hj, Journal.own_append]
    refine h.passes ?_ hr hid hs
    intro e hown
    obtain ⟨event, hevent, rfl⟩ := List.mem_map.mp (List.mem_of_mem_filter hown)
    exact ⟨List.all_eq_true.mp he event hevent, rfl⟩
  | @hears credential n sent wake answer pause news hs hg hj hp hn hs' =>
    obtain ⟨r, url, hg⟩ := hg
    have hretries : Journal.retriesBefore t.id (Journal.own t.id w.journal) = t.retry.retries := by
      obtain ⟨a, rest, -, htries, hspent, -⟩ := (ht r url hg).hear hs answer
      rw [Journal.retriesBefore_own, Journal.retriesBefore, htries]
      exact hspent.others
    have hready : t.ready w.now = some w.now.nanos := by
      simp [Task.ready, hs]
    rw [← hretries] at hp
    rw [hj]
    refine ⟨?_, ?_⟩
    · rw [hid]
      exact (hready ▸ h.spaced).answer (Nat.le_refl _) w.peer hp hn (Task.le_ready_of_paused hs')
    · intro wake' hwake
      refine ⟨news, w.now, _, _, w.peer, by rw [hid], ?_, ?_⟩
      · intro e he
        rcases hn with rfl | rfl
        · cases he
        · cases List.mem_singleton.mp he
          exact ⟨pause, by rw [hid]⟩
      · rw [hid, ← hp]
        rcases hs' with hdone | hs'
        · rw [hwake] at hdone
          exact absurd rfl hdone
        · rw [hs'] at hwake
          split at hwake <;> cases hwake
          rfl

theorem Resting.expire (h : Resting p c.policy w.now t (Journal.own t.id w.journal))
    (hu : t.stage.outcome? = none) : Resting p c.policy w.now (t.expire w).2
      (Journal.own t.id (t.expire w).1.journal) := by
  obtain ⟨n, hn⟩ := Task.ready_of_undone hu w.now
  have hown : Journal.own t.id (t.expire w).1.journal =
      ⟨w.now, .expired t.id⟩ :: Journal.own t.id w.journal := Journal.own_cons rfl _
  rw [hown]
  refine ⟨?_, nofun⟩
  have hnext : Spaced p c.policy t.id (some n) (⟨w.now, .expired t.id⟩ :: Journal.own t.id w.journal) :=
    (hn ▸ h.spaced).cons nofun nofun nofun
  exact hnext.mono nofun

theorem resting_kept : Kept p c
    (fun w => ((Accounted p w ∧ w.Recorded) ∧ w.Recorded) ∧
      ∀ i, Spaced p c.policy i none (Journal.own i w.journal))
    (fun w t => (Explained p w t ∧ t.id < w.tasks ∧
      ∀ r url, t.goal = .call r url → Spending p c r t (Journal.course t.id w.journal)) ∧
      t.id < w.tasks ∧ Resting p c.policy w.now t (Journal.own t.id w.journal)) := by
  refine Kept.withRecord Journal.own_own (P := fun i es => Spaced p c.policy i none es)
    (Kept.withTimedView (Q := fun now t es => Resting p c.policy now t es) Journal.own_own
      spending_kept ?_ ?_ ?_ ?_) ?_
  · intro now time t es hle h
    exact h.later hle
  · intro w goal deadline
    refine ⟨.nothing _, ?_⟩
    intro wake hs
    cases goal <;> cases hs
  · intro w t w' t' _ hj h hm
    exact h.move hj.2.2 hm
  · intro w t h hu hd
    exact h.expire hu
  · intro w t _ hj
    exact hj.2.2.told

/-- After every failed attempt a call keeps the pause that its failure calls for before the next one, and
no pause, be it for the call or for everybody, is longer than an hour. -/
theorem retries_spaced {date : UtcTime} {limiter : Limiter} {credential : Option Credential}
    {peer : σ} {s : Traffic σ} (hr : Reaches p c ⟨.start date limiter credential peer, []⟩ s) :
    (∀ later time i result earlier,
      s.world.journal = later ++ ⟨time, .answered i result⟩ :: earlier →
      ∃ peer d, c.policy.Paused result (Journal.retriesBefore i earlier) (p.draw peer).1 d ∧
        (∀ e ∈ later, e.event.task? = some i → e.event.begins →
          time.nanos + d.nanos ≤ e.time.nanos) ∧
        ∀ rest d', later = rest ++ [⟨time, .penalized i d'⟩] → d' = d) ∧
    (∀ e ∈ s.world.journal, ∀ i d, e.event = .penalized i d → d ≤ longestPause) ∧
    ∀ t ∈ s.tasks, ∀ wake, t.stage = .pausing wake → ∃ later time result earlier peer d,
      s.world.journal = later ++ ⟨time, .answered t.id result⟩ :: earlier ∧
        (∀ e ∈ later, e.event.task? = some t.id → ∃ d, e.event = .penalized t.id d) ∧
        c.policy.Paused result (Journal.retriesBefore t.id earlier) (p.draw peer).1 d ∧
        wake = time.timer d := by
  obtain ⟨⟨-, hspaced⟩, hresting⟩ := resting_kept.reaches hr
    ⟨⟨⟨accounted_start p _ _ _ _, recorded_start _ _ _ _⟩, recorded_start _ _ _ _⟩,
      fun _ => .nothing _⟩ (by simp)
  refine ⟨?_, ?_, ?_⟩
  -- what the journal tells of a task is read off the entries of that task, and put back into the journal
  · intro later time i result earlier hj
    have hown : Journal.own i s.world.journal =
        Journal.own i later ++ ⟨time, .answered i result⟩ :: Journal.own i earlier := by
      rw [hj, Journal.own_append, Journal.own_cons rfl]
    obtain ⟨peer, hheeds⟩ := (hspaced i).heeded _ _ _ _ hown
    rw [Journal.retriesBefore_own] at hheeds
    refine ⟨peer, _, c.policy.paused _ _ _, ?_, ?_⟩
    · intro e he ht hbegins
      exact hheeds.begun e (List.mem_filter.mpr ⟨he, decide_eq_true ht⟩) hbegins
    · rintro rest d' rfl
      refine hheeds.penalty (Journal.own i rest) d' ?_
      rw [Journal.own_append, Journal.own_cons rfl]
      rfl
  · rintro ⟨time, event⟩ he i d rfl
    have hmem : (⟨time, .penalized i d⟩ : Entry) ∈ Journal.own i s.world.journal :=
      List.mem_filter.mpr ⟨he, decide_eq_true rfl⟩
    obtain ⟨later, earlier, hown⟩ := List.append_of_mem hmem
    obtain ⟨result, rest, rfl⟩ := (hspaced i).penalties _ _ _ _ hown
    obtain ⟨peer, hheeds⟩ := (hspaced i).heeded (later ++ [⟨time, .penalized i d⟩]) _ _ _
      (by rw [hown, List.append_assoc]; rfl)
    rw [hheeds.penalty later d rfl]
    exact c.policy.pauseAfter_le _ _ _
  · intro t ht wake hwake
    obtain ⟨later, time, result, earlier, peer, hown, hlater, hsleep⟩ :=
      (hresting t ht).2.2.sleep wake hwake
    obtain ⟨later', earlier', hj, rfl, rfl⟩ := Journal.of_own_eq hown
    rw [Journal.retriesBefore_own] at hsleep
    refine ⟨later', time, result, earlier', peer, _, hj, ?_, c.policy.paused _ _ _, hsleep⟩
    intro e he hown
    exact hlater e (List.mem_filter.mpr ⟨he, decide_eq_true hown⟩)

theorem answered_at {journal : List Entry} {n i : Nat} {time : Instant} {a : Response}
    (h : (journal[n]?).bind answer? = some (time, i, a)) :
    journal = journal.take n ++ ⟨time, .answered i (.ok a)⟩ :: journal.drop (n + 1) := by
  obtain ⟨e, ha, hj⟩ := entry_at h
  rwa [answer?_eq ha] at hj

/-- A service that is out of order, rejects the credential, and then wants to be left alone for two
hours. -/
def moody : Peer Nat where
  send _ n := (⟨.zero, .ok ⟨if n = 0 then 503 else if n = 1 then 401 else 429,
    [("retry-after", "7200")], [], .zero, 1⟩⟩, n + 1)
  exchange _ n := (⟨.zero, .ok ⟨"token", 7200, none, none, none⟩⟩, n)
  draw n := (0, n)

/-- After one retry and a new credential, the call is told to come back in two hours, and comes back in
one. -/
theorem retries_spaced_moody : ∃ (s : Traffic Nat) (later earlier : List Entry) (a : Response) (d : Span),
    Reaches moody (Setup.plain 2) ⟨.start (.ofNanos 0) (.ofQuota .standard) none 0, []⟩ s ∧
    s.world.journal = later ++ ⟨⟨1000000⟩, .answered 0 (.ok a)⟩ :: earlier ∧
    Journal.retriesBefore 0 earlier = 1 ∧ (Journal.tries 0 earlier).length = 3 ∧
    d = .ofSeconds 3600 ∧ Journal.grants later = [⟨3600001000000⟩] ∧
    ∀ e ∈ later, e.event.task? = some 0 → e.event.begins → 1000000 + d.nanos ≤ e.time.nanos := by
  let a : Response := ⟨429, [("retry-after", "7200")], [], .zero, 3⟩
  have hrun : ((Schedule.ofOrders (World.start (.ofNanos 0) (.ofQuota .standard) none 0) 1
        [⟨.ofRequest (Setup.plain 2).base (.get "families"), none⟩]).run moody (Setup.plain 2)
        20).toOption.map (fun s => ((s.world.journal[5]?).bind answer?,
          Journal.retriesBefore 0 (s.world.journal.drop 6),
          (Journal.tries 0 (s.world.journal.drop 6)).length,
          Journal.grants (s.world.journal.take 5))) =
      some (some (⟨1000000⟩, 0, a), 1, 3, [⟨3600001000000⟩]) := by decide +kernel
  obtain ⟨s, hreach, hjournal⟩ := reaches_of_read hrun
  simp only [Prod.mk.injEq] at hjournal
  obtain ⟨hanswer, hretries, htries, hgrants⟩ := hjournal
  have hj := answered_at hanswer
  obtain ⟨hspaced, -, -⟩ := retries_spaced hreach
  obtain ⟨peer, d, hpaused, hlater, -⟩ := hspaced _ _ _ _ _ hj
  have hhint : Response.hint? (.ok a) = some (.ofSeconds 3600) := by decide +kernel
  exact ⟨⟨s.world, s.tasks⟩, _, _, a, d, hreach, hj, hretries, htries, hpaused.told _ hhint, hgrants,
    hlater⟩

end Traffic

end CatalogClient
