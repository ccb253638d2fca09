import CatalogClient.Proofs.Bulk.Success
import CatalogClient.Proofs.Client.Unhindered
import CatalogClient.Proofs.Pipeline.Alone
import CatalogClient.Proofs.Pipeline.Budget
/-!
Calls with a deadline beside the same calls without. The deadline cuts a call off and does nothing else:
until it strikes the same happens at the same instants, and from then on nothing.
-/

namespace CatalogClient

/-- The instant at which a deadline strikes that is set now: at a whole millisecond, as every timer. One
beyond the end of time is put thirty years off. -/
def Instant.deadline (t : Instant) (d : Span) : Instant :=
  t.timer (if (t.add? d).isSome then d else .ofSeconds (30 * 365 * 86400))

namespace Instant

theorem deadline_bounds {t : Instant} {d : Span} (h : (t.add? d).isSome) :
    t.nanos + d.nanos ≤ (t.deadline d).nanos ∧
      (t.deadline d).nanos < t.nanos + d.nanos + nanosPerMilli := by
  rw [deadline, if_pos h]
  refine ⟨t.le_timer d, ?_⟩
  simp only [timer, nanosPerMilli]
  omega

theorem deadline_exact {t : Instant} {d : Span} (h : (t.add? d).isSome)
    (hwhole : nanosPerMilli ∣ t.nanos + d.nanos) : (t.deadline d).nanos = t.nanos + d.nanos := by
  rw [deadline, if_pos h]
  simp only [timer, nanosPerMilli] at *
  omega

theorem le_deadline (t : Instant) (d : Span) : t ≤ t.deadline d :=
  Nat.le_trans (Nat.le_add_right _ _) (t.le_timer _)

theorem le_since_deadline {t : Instant} {d : Span} (h : (t.add? d).isSome) :
    d ≤ (t.deadline d).since t := by
  obtain ⟨hlow, hhigh⟩ := deadline_bounds h
  have hsum : t.nanos + d.nanos < horizon := by
    by_contra hbeyond
    simp [add?, hbeyond] at h
  have hroom : (t.deadline d).nanos - t.nanos < Width.beyond64 * nanosPerSecond := by
    simp only [horizon, Width.beyond64, nanosPerSecond, nanosPerMilli] at *
    omega
  change d.nanos ≤ (Span.ofNanos _).nanos
  rw [Span.ofNanos, dif_pos hroom]
  change d.nanos ≤ (t.deadline d).nanos - t.nanos
  omega

end Instant

namespace World

variable {σ : Type}

/-- The second state comes after the first, and so does all that the journal has gained. -/
structure Spans (w w' : World σ) : Prop where
  later : w.now ≤ w'.now
  journal : ∃ news, w'.journal = news ++ w.journal ∧ ∀ e ∈ news, w.now ≤ e.time ∧ e.time ≤ w'.now

theorem Spans.refl (w : World σ) : w.Spans w := ⟨Nat.le_refl _, [], rfl, by simp⟩

theorem Spans.extend {w v v' : World σ} (h : w.Spans v) (hnow : v.now ≤ v'.now) (es : List Entry)
    (hj : v'.journal = es ++ v.journal) (he : ∀ e ∈ es, e.time = v.now) : w.Spans v' := by
  obtain ⟨hlater, news, hnews, hspan⟩ := h
  refine ⟨Nat.le_trans hlater hnow, es ++ news, by rw [hj, hnews, List.append_assoc], fun e hmem => ?_⟩
  rcases List.mem_append.mp hmem with hmem | hmem
  · rw [he e hmem]
    exact ⟨hlater, hnow⟩
  · exact ⟨(hspan e hmem).1, Nat.le_trans (hspan e hmem).2 hnow⟩

end World

namespace Traffic

variable {σ : Type} {p : Peer σ} {c : Setup}

theorem spans_kept (w : World σ) : Kept p c w.Spans (fun _ _ => True) where
  begin v goal deadline h := ⟨⟨h.later, h.journal⟩, True.intro, fun _ _ => True.intro⟩
  move v t v' t' h _ hm := by
    obtain ⟨events, hj, -⟩ := hm.journal_eq
    refine ⟨h.extend (Nat.le_of_eq (congrArg Instant.nanos hm.now_eq.symm)) _ hj fun e he => ?_,
      True.intro, fun _ _ _ => True.intro⟩
    obtain ⟨event, -, rfl⟩ := List.mem_map.mp he
    rfl
  expire v t h _ _ _ :=
    ⟨h.extend (Nat.le_refl _) [⟨v.now, .expired t.id⟩] rfl (by simp), True.intro,
      fun _ _ _ => True.intro⟩
  drop v t h _ := ⟨⟨h.later, h.journal⟩, fun _ _ _ => True.intro⟩
  elapse v time h hle := ⟨h.extend hle [] rfl (by simp), fun _ _ => True.intro⟩
  date v date h := ⟨⟨h.later, h.journal⟩, fun _ _ => True.intro⟩
  limit v a mark l h _ := ⟨⟨h.later, h.journal⟩, fun _ _ => True.intro⟩
  invalidate v token h :=
    ⟨h.extend (Nat.le_refl _) [⟨v.now, .invalidated token⟩] rfl (by simp),
      fun _ _ => True.intro⟩

end Traffic

theorem Task.expire_journal {σ : Type} (w : World σ) (t : Task) :
    (t.expire w).1.journal = ⟨w.now, .expired t.id⟩ :: w.journal := rfl

def Client.unlimited (k : Client) : Client := { k with setup := k.setup.unlimited }

namespace Client

variable {σ : Type} {k : Client} {p : Peer σ} {w : World σ} {r : Request}

/-- What a call comes to when its schedule has run. -/
def close : Except (World σ × Fault) (Schedule σ) →
    Except Fault (Except Failure Response) × World σ
  | .error (w, fault) => (.error fault, { w with turnstile := .free })
  | .ok s =>
    (.ok (match (s.tasks.filterMap (·.stage.outcome?)).filterMap (·.answer?) with
      | [result] => result
      | _ => .error (.internal "no answer")), s.world)

theorem execute_eq (k : Client) (p : Peer σ) (w : World σ) (r : Request) :
    (k.execute p r).run w = close ((Schedule.ofOrders w 1 [k.order r]).run p k.setup
      (Schedule.enough k.setup.policy.maxRetries 1)) := by
  change (k.answersTo p 1 [k.order r] >>= _) w = _
  rw [Effect.bind_apply]
  cases hrun : (Schedule.ofOrders w 1 [k.order r]).run p k.setup
      (Schedule.enough k.setup.policy.maxRetries 1) with
  | error y =>
    rw [answersTo_of_fault hrun]
    rfl
  | ok s =>
    rw [answersTo_of_run hrun]
    dsimp only [close]
    generalize (s.tasks.filterMap (·.stage.outcome?)).filterMap (·.answer?) = answers
    rcases answers with _ | ⟨answer, _ | ⟨answer', answers⟩⟩ <;> rfl

theorem close_unlimited (x : Except (World σ × Fault) (Schedule σ)) :
    close (x.map Schedule.unlimited) = close x := by
  cases x with
  | error y => rfl
  | ok s =>
    have hsame : (s.tasks.map (·.unlimited)).filterMap (·.stage.outcome?) =
        s.tasks.filterMap (·.stage.outcome?) := List.filterMap_map
    simp only [Except.map, close, Schedule.unlimited, hsame]

theorem order_unlimited (k : Client) (r : Request) :
    k.unlimited.order r.unlimited = (k.order r).unlimited := by
  have hgoal : Goal.ofRequest k.setup.base r.unlimited = (Goal.ofRequest k.setup.base r).unlimited := by
    have hurl : r.unlimited.url k.setup.base = r.url k.setup.base := rfl
    simp only [Goal.ofRequest, hurl]
    cases r.url k.setup.base <;> rfl
  exact congrArg (Order.mk · none) hgoal

theorem ofOrders_unlimited (w : World σ) (o : Order) :
    (Schedule.ofOrders w 1 [o]).unlimited = Schedule.ofOrders w 1 [o.unlimited] := by
  change Schedule.mk _ [(Task.start w w.tasks o.goal o.deadline).unlimited] _ _ _ _ = _
  rw [Task.start_unlimited]
  rfl

/-- The schedule of one call and the same schedule without the deadline, from their beginning. -/
theorem run_truncates {d : Span} (hw : w.Idle) (hd : r.deadline.or k.setup.deadline = some d) :
    Schedule.Truncates p k.setup (w.now.deadline d) { w with tasks := w.tasks + 1 }
      (Task.start w w.tasks (k.order r).goal (some d))
      ((Schedule.ofOrders w 1 [k.order r]).run p k.setup
        (Schedule.enough k.setup.policy.maxRetries 1))
      ((Schedule.ofOrders w 1 [k.unlimited.order r.unlimited]).run p k.unlimited.setup
        (Schedule.enough k.setup.policy.maxRetries 1)) := by
  have horder : k.order r = ⟨(k.order r).goal, some d⟩ := by
    rw [← hd]
    rfl
  rw [order_unlimited, ← ofOrders_unlimited, horder]
  obtain ⟨hin, hfull⟩ := Schedule.InHand.ofOrders hw.unlocked hw.bounded p k.setup 1
    [⟨(k.order r).goal, some d⟩]
  have hcost := Schedule.ofOrders_cost_le k.setup.policy.maxRetries w 1 [⟨(k.order r).goal, some d⟩]
  refine Schedule.run_truncates ?_ (.due rfl (w.now.le_deadline d)) hin hfull hcost
  exact ⟨rfl, rfl, rfl, by simp [Schedule.ofOrders, Schedule.commence, Schedule.underWay]⟩

theorem close_now (x : Except (World σ × Fault) (Schedule σ)) :
    (close x).2.now = (Schedule.ending x).now := by
  cases x <;> rfl

theorem close_journal (x : Except (World σ × Fault) (Schedule σ)) :
    (close x).2.journal = (Schedule.ending x).journal := by
  cases x <;> rfl

/-- Until its deadline strikes, a call does what it does without one, at the same instants. Then it is over,
and the other goes on. -/
theorem execute_truncates {d : Span} (hw : w.Idle) (hd : r.deadline.or k.setup.deadline = some d)
    {x y : Except Fault (Except Failure Response) × World σ} (hx : (k.execute p r).run w = x)
    (hy : (k.unlimited.execute p r.unlimited).run w = y) :
    ∃ before after : List Entry, y.2.journal = after ++ (before ++ w.journal) ∧
      (∀ e ∈ before, e.time ≤ w.now.deadline d) ∧ (∀ e ∈ after, w.now.deadline d < e.time) ∧
      (y.2.now ≤ w.now.deadline d ∧ after = [] ∧ x = y ∨
        w.now.deadline d < y.2.now ∧ x.2.now = w.now.deadline d ∧
          x.1 = .ok (.error (.timeout ((w.now.deadline d).since w.now))) ∧
          x.2.journal = ⟨w.now.deadline d, .expired w.tasks⟩ :: (before ++ w.journal)) := by
  have htrunc := run_truncates (p := p) hw hd
  rw [execute_eq] at hx hy
  change close (Schedule.run p _ (Schedule.enough k.setup.policy.maxRetries 1) _) = y at hy
  generalize hrun : (Schedule.ofOrders w 1 [k.order r]).run p k.setup
    (Schedule.enough k.setup.policy.maxRetries 1) = limited at htrunc hx
  generalize (Schedule.ofOrders w 1 [k.unlimited.order r.unlimited]).run p k.unlimited.setup
    (Schedule.enough k.setup.policy.maxRetries 1) = free at htrunc hy
  subst hx hy
  cases htrunc with
  | same hnow =>
    have hbegun : Traffic.Reaches p k.setup ⟨w, []⟩ ⟨(Schedule.ofOrders w 1 [k.order r]).world,
        (Schedule.ofOrders w 1 [k.order r]).tasks⟩ :=
      Traffic.commence_reaches ⟨w, [], [], [], [], max 1 1⟩ [k.order r] []
    have hsound := (Traffic.Sound.start w).reaches hbegun
    obtain ⟨ts, hends⟩ := Schedule.run_ends (p := p) (c := k.setup)
      (Schedule.enough k.setup.policy.maxRetries 1) hsound
    obtain ⟨⟨-, before, hbefore, hspan⟩, -⟩ :=
      (Traffic.spans_kept w).reaches (hbegun.trans hends) (.refl w) (by simp)
    subst hrun
    refine ⟨before, [], ?_, fun e he => Nat.le_trans (hspan e he).2 hnow, by simp,
      .inl ⟨?_, rfl, (close_unlimited _).symm⟩⟩
    · rw [close_unlimited, close_journal]
      exact hbefore
    · rw [close_unlimited, close_now]
      exact hnow
  | @cut v u wake s' free ts hbefore hnow hid hstarted hwake hworld htasks hafter =>
    have hbegun : Traffic.Reaches p k.setup ⟨w, []⟩ ⟨{ w with tasks := w.tasks + 1 },
        [Task.start w w.tasks (k.order r).goal (some d)]⟩ := .single (.begin w [] _ _)
    obtain ⟨⟨-, before, hjournal, hspan⟩, -⟩ :=
      (Traffic.spans_kept w).reaches (hbegun.trans hbefore) (.refl w) (by simp)
    obtain ⟨⟨hlater, after, hjournal', hspan'⟩, -⟩ :=
      (Traffic.spans_kept { v with now := wake }).reaches hafter (.refl _) (by simp)
    refine ⟨before, after, ?_, fun e he => Nat.le_trans (hspan e he).2 hnow,
      fun e he => Nat.lt_of_lt_of_le hwake (hspan' e he).1, .inr ⟨?_, ?_, ?_, ?_⟩⟩
    · rw [close_journal, hjournal']
      exact congrArg (after ++ ·) hjournal
    · rw [close_now]
      exact Nat.lt_of_lt_of_le hwake hlater
    · rw [close_now, Schedule.ending, hworld]
      rfl
    · simp only [close, htasks, Task.expire, hstarted]
      rfl
    · rw [close_journal, Schedule.ending, hworld, Task.expire_journal, hid]
      exact congrArg _ hjournal

theorem attempts_append (endpoint : Option TokenEndpoint) (news journal : List Entry) :
    Journal.attempts endpoint (news ++ journal) =
      Journal.attempts endpoint journal ++ Journal.attempts endpoint news := by
  simp only [Journal.attempts, List.reverse_append, List.filterMap_append]

theorem mem_attempts {endpoint : Option TokenEndpoint} {journal : List Entry} {x : Instant × Attempt}
    (h : x ∈ Journal.attempts endpoint journal) : ∃ e ∈ journal, e.time = x.1 := by
  obtain ⟨e, he, hx⟩ := List.mem_filterMap.mp h
  refine ⟨e, List.mem_reverse.mp he, ?_⟩
  cases hevent : e.event <;> cases endpoint <;> simp only [hevent] at hx <;> cases hx <;> rfl

/-- A deadline cuts a call off and does nothing else. The call makes the attempts that it makes without one,
at the same instants, up to the deadline and none after it. It comes to the same end if that is in time, also
at the last instant, and else to a timeout; and a timeout is no failure that is retried. -/
theorem deadline_truncates {d : Span} {limited free : Except Fault (Except Failure Response)}
    {w₁ w₂ : World σ} (hw : w.Idle) (hd : r.deadline.or k.setup.deadline = some d)
    (hlimited : (k.execute p r).run w = (limited, w₁))
    (hfree : (k.unlimited.execute p r.unlimited).run w = (free, w₂)) :
    (∀ endpoint, ∃ own later,
      Journal.attempts endpoint w₁.journal = Journal.attempts endpoint w.journal ++ own ∧
      Journal.attempts endpoint w₂.journal = Journal.attempts endpoint w.journal ++ (own ++ later) ∧
      (∀ x ∈ own, x.1 ≤ w.now.deadline d) ∧ ∀ x ∈ later, w.now.deadline d < x.1) ∧
    (w₂.now ≤ w.now.deadline d → limited = free ∧ w₁ = w₂) ∧
    (w.now.deadline d < w₂.now →
      limited = .ok (.error (.timeout ((w.now.deadline d).since w.now))) ∧ w₁.now = w.now.deadline d) ∧
    ((w.now.add? d).isSome → w.now.nanos + d.nanos ≤ (w.now.deadline d).nanos ∧
      (w.now.deadline d).nanos < w.now.nanos + d.nanos + nanosPerMilli ∧
      (nanosPerMilli ∣ w.now.nanos + d.nanos → (w.now.deadline d).nanos = w.now.nanos + d.nanos) ∧
      d ≤ (w.now.deadline d).since w.now) ∧
    ∀ elapsed s draw, k.setup.policy.evaluate (.error (.timeout elapsed)) r s draw =
      (.fail (.timeout elapsed), s) := by
  obtain ⟨before, after, hjournal, hbefore, hafter, hend⟩ := execute_truncates hw hd hlimited hfree
  refine ⟨fun endpoint => ?_, ?_, ?_, ?_, fun _ _ _ => rfl⟩
  · have hown : Journal.attempts endpoint w₁.journal =
        Journal.attempts endpoint w.journal ++ Journal.attempts endpoint before := by
      rw [← attempts_append]
      rcases hend with ⟨-, rfl, hsame⟩ | ⟨-, -, -, hexpired⟩
      · cases hsame
        rw [← List.nil_append (before ++ w.journal), ← hjournal]
      · rw [show w₁.journal = _ from hexpired]
        simp [Journal.attempts]
    refine ⟨Journal.attempts endpoint before, Journal.attempts endpoint after, hown, ?_, ?_, ?_⟩
    · rw [show w₂.journal = _ from hjournal, attempts_append, attempts_append, List.append_assoc]
    · intro x hx
      obtain ⟨e, he, ht⟩ := mem_attempts hx
      exact ht ▸ hbefore e he
    · intro x hx
      obtain ⟨e, he, ht⟩ := mem_attempts hx
      exact ht ▸ hafter e he
  · intro hintime
    rcases hend with ⟨-, -, hsame⟩ | ⟨hlate, -⟩
    · exact Prod.mk.inj hsame
    · exact absurd hintime (Nat.not_le_of_lt hlate)
  · intro hlate
    rcases hend with ⟨hintime, -⟩ | ⟨-, hnow, hresult, -⟩
    · exact absurd hintime (Nat.not_le_of_lt hlate)
    · exact ⟨hresult, hnow⟩
  · intro hrange
    obtain ⟨hlow, hhigh⟩ := Instant.deadline_bounds hrange
    exact ⟨hlow, hhigh, Instant.deadline_exact hrange, Instant.le_since_deadline hrange⟩

def oneMilli : Request := (Request.get "families").withDeadline (.ofMillis 1)

theorem deadline_truncates_failing : ∃ (w₁ w₂ : World Nat) (f : Failure),
    (plain.execute .failing oneMilli).run (plain.world (.ofNanos 0) none 0) =
      (.ok (.error (.timeout (.ofMillis 1))), w₁) ∧
    (plain.unlimited.execute .failing oneMilli.unlimited).run (plain.world (.ofNanos 0) none 0) =
      (.ok (.error f), w₂) ∧
    (Journal.attempts none w₁.journal).length = 3 ∧ (Journal.attempts none w₂.journal).length = 5 ∧
    ∃ later, Journal.attempts none w₂.journal = Journal.attempts none w₁.journal ++ later ∧
      ∀ x ∈ later, nanosPerMilli < x.1.nanos := by
  have hlimited : ∃ w₁ : World Nat, (plain.execute .failing oneMilli).run
      (plain.world (.ofNanos 0) none 0) = (.ok (.error (.timeout (.ofMillis 1))), w₁) ∧
      (Journal.attempts none w₁.journal).length = 3 := ⟨_, rfl, rfl⟩
  have hfree : ∃ (w₂ : World Nat) (f : Failure), (plain.unlimited.execute .failing oneMilli.unlimited).run
      (plain.world (.ofNanos 0) none 0) = (.ok (.error f), w₂) ∧
      (Journal.attempts none w₂.journal).length = 5 := ⟨_, _, rfl, rfl⟩
  obtain ⟨w₁, h₁, hthree⟩ := hlimited
  obtain ⟨w₂, f, h₂, hfive⟩ := hfree
  obtain ⟨hattempts, -⟩ := deadline_truncates (World.Idle.start (.ofNanos 0) plain.quota none 0) rfl h₁ h₂
  obtain ⟨own, later, hown, hall, -, hlater⟩ := hattempts none
  refine ⟨w₁, w₂, f, h₁, h₂, hthree, hfive, later, ?_, hlater⟩
  rw [hall, hown]
  rfl

end Client

end CatalogClient
