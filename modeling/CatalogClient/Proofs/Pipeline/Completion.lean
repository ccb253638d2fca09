import CatalogClient.Proofs.Pipeline.Progress
/-!
Runs come to rest. The work of the tasks, the timers, and the queue of those that can go on make a cost
that each turn lowers, so that a run has steps enough; and while a task is not done, a timer, the queue
or the lock has it in hand.
-/

namespace CatalogClient

open Traffic

namespace Schedule

variable {σ : Type} {p : Peer σ} {c : Setup}

def owned (t : Task) : List Timer :=
  if t.stage.outcome?.isSome then []
  else (t.stage.wake?.map fun i => Timer.mk i t.id false).toList ++
    (t.deadline.map fun i => Timer.mk i t.id true).toList

theorem task_of_owned {t : Task} {x : Timer} (h : x ∈ owned t) : x.task = t.id := by
  unfold owned at h
  split at h
  · cases h
  · simp only [List.mem_append, Option.mem_toList, Option.map_eq_some_iff] at h
    rcases h with ⟨i, -, rfl⟩ | ⟨i, -, rfl⟩ <;> rfl

theorem length_owned_le (t : Task) : (owned t).length ≤ 2 := by
  unfold owned
  split
  · exact Nat.zero_le _
  · cases t.stage.wake? <;> cases t.deadline <;> simp

theorem resetTimers_eq (timers : List Timer) (t : Task) :
    ∃ keep : Timer → Bool, resetTimers timers t =
        timers.filter keep ++ (owned t).filter (· ∉ timers) ∧
      (∀ x, x.task ≠ t.id → keep x) ∧ ∀ x ∈ owned t, keep x := by
  unfold resetTimers
  by_cases hd : t.stage.outcome?.isSome
  · refine ⟨fun x => x.task ≠ t.id, ?_, fun x hx => by simpa using hx, ?_⟩
    · simp [owned, hd]
    · intro x hx
      simp [owned, hd] at hx
  · refine ⟨fun x => x.task ≠ t.id ∨ x.isDeadline ∨ some x.time = t.stage.wake?, ?_,
      fun x hx => by simp [hx], ?_⟩
    · have hsame : (owned t).filter (fun x => x ∉ timers.filter (fun y => y.task = t.id)) =
          (owned t).filter (· ∉ timers) := by
        refine List.filter_congr fun x hx => ?_
        simp [List.mem_filter, task_of_owned hx]
      rw [← hsame]
      simp [owned, hd]
    · intro x hx
      simp only [owned, if_neg hd, List.mem_append, Option.mem_toList, Option.map_eq_some_iff] at hx
      rcases hx with ⟨i, hi, rfl⟩ | ⟨i, -, rfl⟩
      · simp [hi]
      · simp

theorem mem_resetTimers_owned (timers : List Timer) {t : Task} {x : Timer} (h : x ∈ owned t) :
    x ∈ resetTimers timers t := by
  obtain ⟨keep, heq, -, hkeep⟩ := resetTimers_eq timers t
  rw [heq]
  by_cases hx : x ∈ timers
  · exact List.mem_append_left _ (List.mem_filter.mpr ⟨hx, hkeep x h⟩)
  · exact List.mem_append_right _ (List.mem_filter.mpr ⟨h, by simpa using hx⟩)

theorem mem_resetTimers_other (timers : List Timer) {t : Task} {x : Timer} (h : x.task ≠ t.id) :
    x ∈ resetTimers timers t ↔ x ∈ timers := by
  obtain ⟨keep, heq, hkeep, -⟩ := resetTimers_eq timers t
  rw [heq, List.mem_append]
  refine ⟨?_, fun hx => .inl (List.mem_filter.mpr ⟨hx, hkeep x h⟩)⟩
  rintro (hx | hx)
  · exact (List.mem_filter.mp hx).1
  · exact absurd (task_of_owned (List.mem_filter.mp hx).1) h

theorem length_resetTimers_le (timers : List Timer) (t : Task) :
    (resetTimers timers t).length ≤ timers.length + (owned t).countP (· ∉ timers) := by
  obtain ⟨keep, heq, -, -⟩ := resetTimers_eq timers t
  rw [heq, List.length_append, List.countP_eq_length_filter]
  exact Nat.add_le_add_right (List.length_filter_le _ _) _

theorem mem_enqueue {ready woken : List Nat} {i : Nat} :
    i ∈ enqueue ready woken ↔ i ∈ ready ∨ i ∈ woken := by
  unfold enqueue
  induction woken generalizing ready with
  | nil => simp
  | cons j woken ih =>
    rw [List.foldl_cons, ih]
    by_cases hj : j ∈ ready
    · rw [if_pos hj, List.mem_cons]
      refine ⟨fun h => h.imp_right .inr, ?_⟩
      rintro (h | rfl | h)
      · exact .inl h
      · exact .inl hj
      · exact .inr h
    · rw [if_neg hj, List.mem_append, List.mem_singleton, List.mem_cons, or_assoc]

theorem length_enqueue_le (ready woken : List Nat) :
    (enqueue ready woken).length ≤ ready.length + woken.length := by
  unfold enqueue
  induction woken generalizing ready with
  | nil => exact Nat.le_refl _
  | cons j woken ih =>
    rw [List.foldl_cons]
    have hle := ih (if j ∈ ready then ready else ready ++ [j])
    have hone : (if j ∈ ready then ready else ready ++ [j]).length ≤ ready.length + 1 := by
      split <;> simp
    rw [List.length_cons]
    omega

theorem foldl_sooner (timers : List Timer) (best : Instant) :
    ∃ time, timers.foldl sooner (some best) = some time ∧
      (time = best ∨ ∃ x ∈ timers, x.time ≤ time) := by
  induction timers generalizing best with
  | nil => exact ⟨best, rfl, .inl rfl⟩
  | cons x xs ih =>
    obtain ⟨time, ht, hcases⟩ := ih (if x.time < best then x.time else best)
    refine ⟨time, ht, ?_⟩
    rcases hcases with rfl | ⟨y, hy, hle⟩
    · split
      · exact .inr ⟨x, List.mem_cons_self, Nat.le_refl _⟩
      · exact .inl rfl
    · exact .inr ⟨y, List.mem_cons_of_mem _ hy, hle⟩

theorem nextTime?_cases (timers : List Timer) :
    (timers = [] ∧ nextTime? timers = none) ∨
      ∃ time, nextTime? timers = some time ∧ ∃ x ∈ timers, x.time ≤ time := by
  cases timers with
  | nil => exact .inl ⟨rfl, rfl⟩
  | cons x xs =>
    obtain ⟨time, ht, hcases⟩ := foldl_sooner xs x.time
    refine .inr ⟨time, ht, ?_⟩
    rcases hcases with rfl | ⟨y, hy, hle⟩
    · exact ⟨x, List.mem_cons_self, Nat.le_refl _⟩
    · exact ⟨y, List.mem_cons_of_mem _ hy, hle⟩

/-- One task went on: the others are as they were, all that was woken was paid for in work, and who
waits for the lock goes on waiting or was woken. -/
structure Headway (m n : Nat) (ts : List Task) (w : World σ) (t : Task) (w' : World σ) (t' : Task)
    (woken : List Nat) : Prop where
  id_eq : t'.id = t.id
  goal_eq : t'.goal = t.goal
  deadline_eq : t'.deadline = t.deadline
  now_eq : w'.now = w.now
  tasks_eq : w'.tasks = w.tasks
  paid : (w' = w ∧ t' = t ∧ woken = []) ∨
    work m n w'.limiter (put ts t') + 1 ≤ work m n w.limiter ts ∧
    work m n w'.limiter (put ts t') + woken.length ≤ work m n w.limiter ts
  queued : ∀ i ∈ w.turnstile.queue, i ≠ t.id → i ∈ w'.turnstile.queue ∨ i ∈ woken

namespace Headway

variable {m n : Nat} {ts : List Task} {w w₁ w₂ : World σ} {t t₁ t₂ : Task} {woken more : List Nat}

theorem refl : Headway m n ts w t w t [] :=
  ⟨rfl, rfl, rfl, rfl, rfl, .inl ⟨rfl, rfl, rfl⟩, fun _ hi _ => .inl hi⟩

theorem trans (hn : (ts.map (·.id)).Nodup) (ht : t ∈ ts) (h : Headway m n ts w t w₁ t₁ woken)
    (h' : Headway m n (put ts t₁) w₁ t₁ w₂ t₂ more) :
    Headway m n ts w t w₂ t₂ (woken ++ more) := by
  refine ⟨h'.id_eq.trans h.id_eq, h'.goal_eq.trans h.goal_eq,
    h'.deadline_eq.trans h.deadline_eq, h'.now_eq.trans h.now_eq, h'.tasks_eq.trans h.tasks_eq,
    ?_, ?_⟩
  · rcases h.paid with ⟨rfl, rfl, rfl⟩ | ⟨hless, hpaid⟩
    · have hsame := h'.paid
      rw [put_self hn ht] at hsame
      exact hsame
    · rcases h'.paid with ⟨rfl, rfl, rfl⟩ | ⟨hless', hpaid'⟩
      · rw [List.append_nil]
        exact .inr ⟨hless, hpaid⟩
      · rw [put_put ts h'.id_eq] at hless' hpaid'
        rw [List.length_append]
        right
        constructor <;> omega
  · intro i hi hne
    rcases h.queued i hi hne with hi | hi
    · exact (h'.queued i hi (h.id_eq ▸ hne)).imp_right (List.mem_append_right _)
    · exact .inr (List.mem_append_left _ hi)

theorem move (hg : Guarded ⟨w, ts⟩) (hl : w.limiter.Bounded) (ht : t ∈ ts) (hn : ts.length ≤ n)
    (hm : t.Move p c w w₁ t₁) :
    Headway c.policy.maxRetries n ts w t w₁ t₁ (passedOn w.turnstile w₁.turnstile t.id) := by
  have hlt := work_move_lt hg.sound hl ht hn hm
  have hone := length_passedOn_le w.turnstile w₁.turnstile t.id
  refine ⟨hm.id_eq, hm.goal_eq, hm.deadline_eq, hm.now_eq, hm.tasks_eq, .inr ⟨hlt, by omega⟩, ?_⟩
  intro i hi hne
  cases hm.passes with
  | stays hlock _ _ => exact .inl (hlock ▸ hi)
  | enters hlock _ _ _ => exact .inl (hlock ▸ Turnstile.enter_wakes t.id hi)
  | leaves hlock _ =>
    rw [hlock]
    exact Turnstile.leave_wakes hg.fair hi hne

theorem expire (hg : Guarded ⟨w, ts⟩) (ht : t ∈ ts) (hn : ts.length ≤ n)
    (hu : t.stage.outcome? = none) (m : Nat) :
    Headway m n ts w t (t.expire w).1 (t.expire w).2
      (passedOn w.turnstile (t.expire w).1.turnstile t.id) := by
  have hlt := work_expire_lt hg.sound ht hn hu m
  have hone := length_passedOn_le w.turnstile (t.expire w).1.turnstile t.id
  refine ⟨rfl, rfl, rfl, rfl, rfl, .inr ⟨hlt, by omega⟩, ?_⟩
  intro i hi hne
  exact Turnstile.leave_wakes hg.fair hi hne

end Headway

theorem advance_headway {fuel n : Nat} {w w' : World σ} {t t' : Task} {woken woken' : List Nat}
    (h : advance p c fuel w t woken = .ok (w', t', woken')) {ts : List Task}
    (hg : Guarded ⟨w, ts⟩) (hl : w.limiter.Bounded) (ht : t ∈ ts) (hn : ts.length ≤ n)
    (hfuel : work c.policy.maxRetries n w.limiter ts ≤ fuel) :
    t'.step p c w' = .ok none ∧ ∃ more, woken' = woken ++ more ∧
      Headway c.policy.maxRetries n ts w t w' t' more := by
  induction fuel generalizing w t woken ts with
  | zero =>
    cases h
    refine ⟨?_, [], (List.append_nil _).symm, .refl⟩
    cases ho : t'.stage.outcome? with
    | none =>
      have hpos := work_pos (n := n) c.policy.maxRetries (l := w'.limiter) ht ho
      omega
    | some o =>
      cases hs : t'.stage <;> simp [hs, Stage.outcome?] at ho
      exact Task.step_done hs
  | succ fuel ih =>
    unfold advance at h
    split at h
    · cases h
    · rename_i hwait
      cases h
      exact ⟨hwait, [], (List.append_nil _).symm, .refl⟩
    · rename_i w₁ t₁ hstep
      have hm := Task.step_move hstep
      have hfirst : Step p c ⟨w, ts⟩ ⟨w₁, put ts t₁⟩ := .move ht hstep
      have hway := Headway.move hg hl ht hn hm
      have hlt := work_move_lt hg.sound hl ht hn hm
      obtain ⟨hwait, more, rfl, hrest⟩ := ih h (hg.step hfirst) (hm.bounded hl)
        (mem_put_self ht hm.id_eq) (by rwa [length_put]) (by omega)
      exact ⟨hwait, _, List.append_assoc _ _ _, hway.trans hg.sound.distinct ht hrest⟩

theorem checkDeadline_headway {n : Nat} {w w' : World σ} {t t' : Task} {freed : List Nat}
    (h : checkDeadline w t = (w', t', freed)) {ts : List Task} (hg : Guarded ⟨w, ts⟩) (ht : t ∈ ts)
    (hn : ts.length ≤ n) (m : Nat) :
    Headway m n ts w t w' t' freed ∧
      (t'.stage.outcome?.isSome ∨ w' = w ∧ t' = t ∧ ∀ d, t.deadline = some d → w.now < d) := by
  unfold checkDeadline at h
  split at h
  · rename_i hd
    cases h
    exact ⟨.expire hg ht hn (Option.isNone_iff_eq_none.mp hd.1) m, .inl rfl⟩
  · rename_i hd
    cases h
    refine ⟨.refl, ?_⟩
    by_cases hs : t.stage.outcome?.isSome
    · exact .inl hs
    · refine .inr ⟨rfl, rfl, ?_⟩
      intro d hdead
      have hn : ¬ d ≤ w.now := by
        intro hle
        exact hd ⟨by simpa using hs, by simp [hdead, hle]⟩
      exact Nat.lt_of_not_le hn

/-- The timers of a task that are still to be set and still to come. -/
def missing (timers : List Timer) (now : Instant) (t : Task) : Nat :=
  (owned t).countP fun x => x ∉ timers ∧ now < x.time

/-- A bound on the turns before all is at rest. -/
def cost (m n : Nat) (s : Schedule σ) : Nat :=
  5 * work m n s.world.limiter s.tasks + 2 * s.timers.length +
    2 * (s.tasks.map (missing s.timers s.world.now)).sum + s.ready.length +
    s.orders.length * (5 * ((3 * n + 1) * taskSteps m + 3) + 3)

theorem missing_start_le (w : World σ) (id : Nat) (goal : Goal) (deadline : Option Span)
    (timers : List Timer) (now : Instant) :
    missing timers now (Task.start w id goal deadline) ≤ 1 := by
  have hlen : (owned (Task.start w id goal deadline)).length ≤ 1 := by
    cases goal <;> cases deadline <;> simp [owned, Task.start, Stage.outcome?, Stage.wake?]
  exact Nat.le_trans List.countP_le_length hlen

theorem commence_cost (m n : Nat) (s : Schedule σ) (orders : List Order) :
    (s.commence orders).cost m n ≤ cost m n { s with orders := orders } := by
  induction orders generalizing s with
  | nil => exact Nat.le_refl _
  | cons o orders ih =>
    rw [commence_cons]
    split
    · refine Nat.le_trans (ih (s.join o)) ?_
      have heffort := Task.effort_start m s.world s.world.tasks o.goal o.deadline
      have hrefusals := Task.refusals_le s.world.limiter
        (Task.start s.world s.world.tasks o.goal o.deadline)
      have hmissing := missing_start_le s.world s.world.tasks o.goal o.deadline s.timers s.world.now
      have hmul := Nat.mul_le_mul_left (3 * n + 1) heffort
      simp only [cost, join, work, List.map_append, List.map_cons, List.map_nil, List.sum_append,
        List.sum_cons, List.sum_nil, List.length_append, List.length_cons, List.length_nil,
        Nat.add_zero, Nat.mul_add (3 * n + 1), Nat.succ_mul orders.length]
      omega
    · exact Nat.le_refl _

theorem commence_orders_cost (m n : Nat) {s : Schedule σ} {orders : List Order}
    (h : orders = s.orders) : (s.commence orders).cost m n ≤ s.cost m n := by
  rw [h]
  exact commence_cost m n s s.orders

theorem settle_cost {m n : Nat} {s : Schedule σ} {w : World σ} {t t' : Task} {woken : List Nat}
    (hn : (s.tasks.map (·.id)).Nodup) (ht : t ∈ s.tasks) (hid : t'.id = t.id)
    (hnow : w.now = s.world.now)
    (h : 5 * work m n w.limiter (put s.tasks t') + woken.length +
        2 * (owned t').countP (· ∉ s.timers) ≤
      5 * work m n s.world.limiter s.tasks + 2 * missing s.timers s.world.now t) :
    (s.settle w t' woken).cost m n ≤ s.cost m n := by
  have htimers := length_resetTimers_le s.timers t'
  have hready := length_enqueue_le s.ready woken
  have hothers : ∀ u ∈ s.tasks, u.id ≠ t.id →
      missing (resetTimers s.timers t') w.now u ≤ missing s.timers s.world.now u := by
    intro u _ hne
    refine List.countP_mono_left fun x hx hmiss => ?_
    have hother : x.task ≠ t'.id := by
      rw [task_of_owned hx, hid]
      exact hne
    simpa [mem_resetTimers_other s.timers hother, hnow] using hmiss
  have hown : missing (resetTimers s.timers t') w.now t' = 0 := by
    refine List.countP_eq_zero.mpr fun x hx => ?_
    simp [mem_resetTimers_owned s.timers hx]
  have hsum := sum_put hn ht hid hothers (d := missing s.timers s.world.now t) (by omega)
  simp only [cost, settle]
  omega

theorem countP_owned_of_wait {w : World σ} {t : Task} (timers : List Timer)
    (hw : t.step p c w = .ok none) (hd : ∀ d, t.deadline = some d → w.now < d) :
    (owned t).countP (· ∉ timers) ≤ missing timers w.now t := by
  refine List.countP_mono_left fun x hx hnot => ?_
  have htime : w.now < x.time := by
    by_cases hs : t.stage.outcome?.isSome
    · simp [owned, hs] at hx
    · simp only [owned, if_neg hs, List.mem_append, Option.mem_toList, Option.map_eq_some_iff] at hx
      rcases hx with ⟨i, hi, rfl⟩ | ⟨i, hi, rfl⟩
      · rcases Task.step_wait hw with hdone | ⟨wake, hwake, hlt⟩ | ⟨observed, hq, -⟩
        · exact absurd hdone hs
        · cases hi.symm.trans hwake
          exact hlt
        · rw [hq] at hi
          cases hi
      · exact hd i hi
  simpa [htime] using hnot

/-- What is known of a schedule after one of its tasks went as far as it could. -/
structure Settled (p : Peer σ) (c : Setup) (n : Nat) (s : Schedule σ) (t : Task) (w : World σ)
    (t' : Task) (woken : List Nat) : Prop where
  headway : Headway c.policy.maxRetries n s.tasks s.world t w t' woken
  guarded : Guarded ⟨w, put s.tasks t'⟩
  bounded : w.limiter.Bounded
  rests : t'.stage.outcome?.isSome ∨ t'.step p c w = .ok none
  cost_le : (s.settle w t' woken).cost c.policy.maxRetries n ≤ s.cost c.policy.maxRetries n

theorem Settled.commence_le {n : Nat} {s : Schedule σ} {t t' : Task} {w : World σ}
    {woken : List Nat} (h : Settled p c n s t w t' woken) {orders : List Order}
    (ho : orders = s.orders) : ((s.settle w t' woken).commence orders).cost c.policy.maxRetries n ≤
      s.cost c.policy.maxRetries n := by
  refine Nat.le_trans (commence_orders_cost _ _ ?_) h.cost_le
  exact ho

theorem poll_settled {fuel n : Nat} {s s' : Schedule σ} {t : Task}
    (h : s.poll p c fuel t = .ok s') (hg : Guarded ⟨s.world, s.tasks⟩)
    (hl : s.world.limiter.Bounded) (ht : t ∈ s.tasks) (hn : s.tasks.length ≤ n)
    (hfuel : work c.policy.maxRetries n s.world.limiter s.tasks ≤ fuel) :
    ∃ w t' woken, s' = (s.settle w t' woken).commence s.orders ∧ Settled p c n s t w t' woken := by
  obtain ⟨w₁, t₁, woken, w₂, t₂, freed, ha, hc, rfl⟩ := poll_ok h
  obtain ⟨hwait, _, rfl, hway⟩ := advance_headway ha hg hl ht hn hfuel
  obtain ⟨hr₁, hid₁⟩ := advance_reaches ha hg.sound ht
  have hg₁ := hg.reaches hr₁
  have ht₁ : t₁ ∈ put s.tasks t₁ := mem_put_self ht hid₁
  have hn₁ : (put s.tasks t₁).length ≤ n := by rwa [length_put]
  obtain ⟨hway', hend⟩ := checkDeadline_headway hc hg₁ ht₁ hn₁ c.policy.maxRetries
  obtain ⟨hr₂, hid₂⟩ := checkDeadline_reaches (p := p) (c := c) hc hg₁.sound ht₁
  have hboth : Headway c.policy.maxRetries n s.tasks s.world t w₂ t₂ (woken ++ freed) :=
    hway.trans hg.sound.distinct ht hway'
  have hg₂ := hg₁.reaches hr₂
  have hl₂ := hr₂.bounded (hr₁.bounded hl)
  rw [put_put s.tasks hid₂] at hg₂
  refine ⟨w₂, t₂, woken ++ freed, rfl, hboth, hg₂, hl₂, ?_, ?_⟩
  · rcases hend with hdone | ⟨rfl, rfl, -⟩
    · exact .inl hdone
    · exact .inr hwait
  · refine settle_cost hg.sound.distinct ht hboth.id_eq hboth.now_eq ?_
    have hfew := Nat.le_trans (List.countP_le_length (l := owned t₂) (p := (· ∉ s.timers)))
      (length_owned_le t₂)
    rcases hboth.paid with ⟨rfl, rfl, hnone⟩ | ⟨hless, hpaid⟩
    · rw [hnone, put_self hg.sound.distinct ht]
      have hmiss : (owned t₂).countP (· ∉ s.timers) ≤ missing s.timers s.world.now t₂ := by
        rcases hend with hdone | ⟨rfl, rfl, hdead⟩
        · simp [owned, hdone]
        · exact countP_owned_of_wait s.timers hwait hdead
      simp only [List.length_nil]
      omega
    · omega

theorem elapse_cost (m n : Nat) {s : Schedule σ} {time : Instant} (hr : s.ready = [])
    (ht : nextTime? s.timers = some time) : (s.elapse time).cost m n < s.cost m n := by
  have hdue : ∃ x ∈ s.timers, x.time ≤ time := by
    rcases nextTime?_cases s.timers with ⟨-, hnone⟩ | ⟨time', hsome, hx⟩
    · rw [hnone] at ht
      cases ht
    · cases hsome.symm.trans ht
      exact hx
  have hsplit := List.length_eq_length_filter_add (l := s.timers) (fun x => decide (x.time ≤ time))
  have hpos : 0 < (s.timers.filter fun x => decide (x.time ≤ time)).length := by
    obtain ⟨x, hx, hle⟩ := hdue
    exact List.length_pos_of_mem (List.mem_filter.mpr ⟨hx, decide_eq_true hle⟩)
  have hready := length_enqueue_le s.ready
    ((s.timers.filter fun x => decide (x.time ≤ time)).map (·.task))
  rw [List.length_map] at hready
  have hmissing : (s.tasks.map (missing (s.timers.filter (¬ ·.time ≤ time))
      (if s.world.now ≤ time then time else s.world.now))).sum ≤
      (s.tasks.map (missing s.timers s.world.now)).sum := by
    refine List.sum_le_sum fun t _ => List.countP_mono_left fun x _ hmiss => ?_
    simp only [List.mem_filter, decide_eq_true_eq, not_and, not_not] at hmiss ⊢
    have hnow : s.world.now < x.time ∧ time < x.time := by
      have hlt := hmiss.2
      split at hlt
      · rename_i hle
        exact ⟨Nat.lt_of_le_of_lt hle hlt, hlt⟩
      · rename_i hgt
        exact ⟨hlt, Nat.lt_of_lt_of_le (Nat.lt_of_not_le hgt) (Nat.le_of_lt hlt)⟩
    refine ⟨fun hx => ?_, hnow.1⟩
    have hle := hmiss.1 hx
    exact absurd hle (Nat.not_le_of_lt hnow.2)
  simp only [hr, List.length_nil] at hready
  simp only [cost, elapse, hr, List.length_nil] at hsplit hready hmissing hpos ⊢
  have hnot : (s.timers.filter fun x => decide ¬ x.time ≤ time).length =
      (s.timers.filter fun x => !decide (x.time ≤ time)).length := by
    simp
  omega

/-- A task that is not done stands in the queue, has a timer, or waits for the lock. -/
def Attends (s : Schedule σ) (t : Task) : Prop :=
  t.id ∈ s.ready ∨ (∃ wake, t.stage.wake? = some wake ∧ ⟨wake, t.id, false⟩ ∈ s.timers) ∨
    t.id ∈ s.world.turnstile.queue

/-- The tasks are those of the first orders, numbered from `base`, and each is in hand. -/
structure InHand (base : Nat) (orders : List Order) (s : Schedule σ) : Prop where
  guarded : Guarded ⟨s.world, s.tasks⟩
  bounded : s.world.limiter.Bounded
  attended : ∀ t ∈ s.tasks, t.stage.outcome? = none → s.Attends t
  room : 0 < s.window
  goals : s.tasks.map (·.goal) ++ s.orders.map (·.goal) = orders.map (·.goal)
  limits : s.tasks.map (·.deadline.isSome) ++ s.orders.map (·.deadline.isSome) =
    orders.map (·.deadline.isSome)
  ids : s.tasks.map (·.id) = List.range' base s.tasks.length
  count : s.world.tasks = base + s.tasks.length

/-- No order is put off while the window has room. -/
def Full (s : Schedule σ) : Prop := s.orders = [] ∨ s.window ≤ underWay s.tasks

namespace InHand

variable {base : Nat} {orders : List Order} {s : Schedule σ}

theorem length_le (h : InHand base orders s) : s.tasks.length ≤ orders.length := by
  have hlen := congrArg List.length h.goals
  simp only [List.length_append, List.length_map] at hlen
  omega

theorem join (p : Peer σ) (c : Setup) {o : Order} {rest : List Order}
    (h : InHand base orders { s with orders := o :: rest }) :
    InHand base orders { s.join o with orders := rest } := by
  have hstep : Step p c ⟨s.world, s.tasks⟩ ⟨(s.join o).world, (s.join o).tasks⟩ :=
    .begin s.world s.tasks o.goal o.deadline
  have hcount : s.world.tasks = base + s.tasks.length := h.count
  have hids : s.tasks.map (·.id) = List.range' base s.tasks.length := h.ids
  refine ⟨h.guarded.step hstep, h.bounded, ?_, h.room, ?_, ?_, ?_, ?_⟩
  · intro t ht hu
    rcases List.mem_append.mp ht with ht | ht
    · exact (h.attended t ht hu).imp_left (List.mem_append_left _)
    · rw [List.mem_singleton.mp ht]
      exact .inl (List.mem_append_right _ (List.mem_singleton_self _))
  · have hgoals := h.goals
    simpa [Schedule.join, Task.start, List.append_assoc] using hgoals
  · have hlimits := h.limits
    simpa [Schedule.join, Task.start, List.append_assoc] using hlimits
  · simp only [Schedule.join, List.map_append, List.map_cons, List.map_nil, List.length_append,
      List.length_cons, List.length_nil, Nat.zero_add, hids, List.range'_concat, Nat.one_mul]
    rw [← hcount]
    rfl
  · simp only [Schedule.join, List.length_append, List.length_cons, List.length_nil]
    omega

theorem commence (p : Peer σ) (c : Setup) {rest : List Order}
    (h : InHand base orders { s with orders := rest }) :
    InHand base orders (s.commence rest) ∧ (s.commence rest).Full := by
  induction rest generalizing s with
  | nil => exact ⟨h, .inl rfl⟩
  | cons o rest ih =>
    rw [commence_cons]
    split
    · exact ih (h.join p c)
    · rename_i hfull
      exact ⟨h, .inr (Nat.le_of_not_lt hfull)⟩

theorem settle {n : Nat} {i : Nat} {ready : List Nat} {t t' : Task} {w : World σ}
    {woken : List Nat} (h : InHand base orders s) (hr : s.ready = i :: ready) (ht : t ∈ s.tasks)
    (hi : t.id = i) (hs : Settled p c n { s with ready := ready } t w t' woken) :
    InHand base orders ({ s with ready := ready }.settle w t' woken) := by
  have hway := hs.headway
  have hid : t'.id = t.id := hway.id_eq
  refine ⟨hs.guarded, hs.bounded, ?_, h.room, ?_, ?_, ?_, ?_⟩
  · intro u hu hnone
    rcases mem_put hu with rfl | ⟨hu, hne⟩
    · rcases hs.rests with hdone | hwait
      · rw [hnone] at hdone
        cases hdone
      · rcases Task.step_wait hwait with hdone | ⟨wake, hwake, -⟩ | ⟨observed, hq, hh⟩
        · rw [hnone] at hdone
          cases hdone
        · refine .inr (.inl ⟨wake, hwake, mem_resetTimers_owned _ ?_⟩)
          simp [owned, hnone, hwake]
        · have hin := hs.guarded.inside u hu (by rw [hq]; rfl)
          rcases List.mem_append.mp hin with hheld | hqueue
          · exact absurd (Option.mem_toList.mp hheld) hh
          · exact .inr (.inr hqueue)
    · rw [hid] at hne
      rcases h.attended u hu hnone with hready | ⟨wake, hwake, htimer⟩ | hqueue
      · rw [hr] at hready
        rcases List.mem_cons.mp hready with he | hready
        · exact absurd (he.trans hi.symm) hne
        · exact .inl (mem_enqueue.mpr (.inl hready))
      · refine .inr (.inl ⟨wake, hwake, (mem_resetTimers_other _ ?_).mpr htimer⟩)
        rw [hid]
        exact hne
      · rcases hway.queued u.id hqueue hne with hqueue | hwoken
        · exact .inr (.inr hqueue)
        · exact .inl (mem_enqueue.mpr (.inr hwoken))
  · change (put s.tasks t').map (·.goal) ++ s.orders.map (·.goal) = _
    rw [map_put h.guarded.sound.distinct ht hid hway.goal_eq]
    exact h.goals
  · change (put s.tasks t').map (·.deadline.isSome) ++ s.orders.map (·.deadline.isSome) = _
    rw [map_put h.guarded.sound.distinct ht hid
      (congrArg Option.isSome hway.deadline_eq)]
    exact h.limits
  · change (put s.tasks t').map (·.id) = List.range' base (put s.tasks t').length
    rw [ids_put, length_put]
    exact h.ids
  · change w.tasks = base + (put s.tasks t').length
    rw [length_put, hway.tasks_eq]
    exact h.count

theorem elapse (p : Peer σ) (c : Setup) (h : InHand base orders s) (hr : s.ready = [])
    (time : Instant) : InHand base orders (s.elapse time) := by
  have hreach := elapse_reaches (p := p) (c := c) s time []
  refine ⟨h.guarded.reaches hreach, h.bounded, ?_, h.room, h.goals, h.limits, h.ids, h.count⟩
  intro u hu hnone
  rcases h.attended u hu hnone with hready | ⟨wake, hwake, htimer⟩ | hqueue
  · rw [hr] at hready
    cases hready
  · by_cases hle : wake ≤ time
    · refine .inl (mem_enqueue.mpr (.inr ?_))
      exact List.mem_map.mpr ⟨_, List.mem_filter.mpr ⟨htimer, decide_eq_true hle⟩, rfl⟩
    · exact .inr (.inl ⟨wake, hwake, List.mem_filter.mpr ⟨htimer, by simpa using hle⟩⟩)
  · exact .inr (.inr hqueue)

theorem skip {i : Nat} {ready : List Nat} (h : InHand base orders s) (hr : s.ready = i :: ready)
    (hf : s.tasks.find? (·.id = i) = none) : InHand base orders { s with ready := ready } := by
  refine ⟨h.guarded, h.bounded, ?_, h.room, h.goals, h.limits, h.ids, h.count⟩
  intro u hu hnone
  rcases h.attended u hu hnone with hready | hother
  · rw [hr] at hready
    rcases List.mem_cons.mp hready with he | hready
    · have hnot := List.find?_eq_none.mp hf u hu
      simp [he] at hnot
    · exact .inl hready
  · exact .inr hother

end InHand

theorem turn_inHand {fuel base : Nat} {orders : List Order} {s s' : Schedule σ}
    (hturn : Turn p c fuel s s') (h : InHand base orders s) (hfull : s.Full)
    (hfuel : s.cost c.policy.maxRetries orders.length ≤ fuel + 1) :
    InHand base orders s' ∧ s'.Full ∧
      s'.cost c.policy.maxRetries orders.length < s.cost c.policy.maxRetries orders.length := by
  cases hturn with
  | @skip i ready hr hf =>
    refine ⟨h.skip hr hf, hfull, ?_⟩
    simp only [cost, hr, List.length_cons]
    omega
  | @poll i ready t s' hr hf hp =>
    have ht := List.mem_of_find?_eq_some hf
    have hi : t.id = i := by simpa using List.find?_some hf
    have hpop : cost c.policy.maxRetries orders.length { s with ready := ready } + 1 =
        s.cost c.policy.maxRetries orders.length := by
      simp only [cost, hr, List.length_cons]
      omega
    have hwork : work c.policy.maxRetries orders.length s.world.limiter s.tasks ≤ fuel := by
      simp only [cost] at hpop hfuel
      omega
    obtain ⟨w, t', woken, rfl, hs⟩ := poll_settled hp h.guarded h.bounded ht h.length_le hwork
    obtain ⟨hin, hfull'⟩ := InHand.commence (s := { s with ready := ready }.settle w t' woken) p c
      (h.settle hr ht hi hs)
    refine ⟨hin, hfull', ?_⟩
    rw [← hpop]
    exact Nat.lt_succ_of_le (hs.commence_le rfl)
  | elapse hr ht => exact ⟨h.elapse p c hr _, hfull, elapse_cost _ _ hr ht⟩

theorem run_inHand {fuel base : Nat} {orders : List Order} {s s' : Schedule σ}
    (hrun : s.run p c fuel = .ok s') (h : InHand base orders s) (hfull : s.Full)
    (hfuel : s.cost c.policy.maxRetries orders.length ≤ fuel) :
    InHand base orders s' ∧ s'.Full ∧ s'.ready = [] ∧ s'.timers = [] := by
  induction fuel generalizing s with
  | zero =>
    cases hrun
    simp only [cost] at hfuel
    exact ⟨h, hfull, List.length_eq_zero_iff.mp (by omega), List.length_eq_zero_iff.mp (by omega)⟩
  | succ fuel ih =>
    rcases run_ok hrun with ⟨hr, ht, rfl⟩ | ⟨s₁, hturn, hrun⟩
    · refine ⟨h, hfull, hr, ?_⟩
      rcases nextTime?_cases s'.timers with ⟨hnil, -⟩ | ⟨time, hsome, -⟩
      · exact hnil
      · rw [hsome] at ht
        cases ht
    -- A turn costs one unit of fuel and lowers the cost, so the rest of the fuel does for the rest.
    · obtain ⟨h₁, hfull₁, hlt⟩ := turn_inHand hturn h hfull hfuel
      exact ih hrun h₁ hfull₁ (by omega)

/-- The tasks that orders have become, numbered from `base`. -/
structure Begun (base : Nat) (orders : List Order) (w : World σ) (ts : List Task) : Prop where
  ids : ts.map (·.id) = List.range' base ts.length
  count : w.tasks = base + ts.length
  goals : ∀ t ∈ ts, t.goal ∈ orders.map (·.goal)

theorem Begun.exists_task {base : Nat} {orders : List Order} {w : World σ} {ts : List Task}
    (h : Begun base orders w ts) {i : Nat} (hlow : base ≤ i) (hi : i < w.tasks) : ∃ t ∈ ts, t.id = i := by
  have hcount := h.count
  have hmem : i ∈ ts.map (·.id) := by
    rw [h.ids, List.mem_range'_1]
    omega
  exact List.mem_map.mp hmem

/-- A run that ends in a fault ends in the step of a task that one of the orders became. -/
theorem run_fault_inHand {fuel base : Nat} {orders : List Order} {s : Schedule σ} {w : World σ}
    {fault : Fault} (hrun : s.run p c fuel = .error (w, fault)) (h : InHand base orders s)
    (hfull : s.Full) (hfuel : s.cost c.policy.maxRetries orders.length ≤ fuel) :
    ∃ ts, Reaches p c ⟨s.world, s.tasks⟩ ⟨w, ts⟩ ∧ (∃ t ∈ ts, t.step p c w = .error fault) ∧
      Begun base orders w ts := by
  induction fuel generalizing s with
  | zero => cases hrun
  | succ fuel ih =>
    rcases run_error hrun with ⟨i, ready, t, hr, hf, ha⟩ | ⟨s₁, hturn, hrun⟩
    · have ht := List.mem_of_find?_eq_some hf
      obtain ⟨ts, hreach, hstep, htasks, hids, hgoals⟩ := advance_reaches_fault ha h.guarded.sound ht
      have hlen : ts.length = s.tasks.length := by
        simpa using congrArg List.length hids
      refine ⟨ts, hreach, hstep, ?_, ?_, fun u hu => ?_⟩
      · rw [hids, hlen]
        exact h.ids
      · rw [htasks, hlen]
        exact h.count
      · rw [← h.goals, ← hgoals]
        exact List.mem_append_left _ (List.mem_map_of_mem hu)
    · obtain ⟨h₁, hfull₁, hlt⟩ := turn_inHand hturn h hfull hfuel
      obtain ⟨ts, hreach, hstep⟩ := ih hrun h₁ hfull₁ (by omega)
      have hfirst : Reaches p c ⟨s.world, [] ++ s.tasks⟩ ⟨s₁.world, [] ++ s₁.tasks⟩ :=
        turn_reaches hturn h.guarded.sound
      exact ⟨ts, hfirst.trans hreach, hstep⟩

theorem InHand.done {base : Nat} {orders : List Order} {s : Schedule σ} (h : InHand base orders s)
    (hr : s.ready = []) (ht : s.timers = []) : ∀ t ∈ s.tasks, t.stage.outcome?.isSome := by
  have hwaits : ∀ t ∈ s.tasks, t.stage.outcome? = none → t.id ∈ s.world.turnstile.queue := by
    intro t hmem hnone
    rcases h.attended t hmem hnone with hready | ⟨wake, -, htimer⟩ | hqueue
    · rw [hr] at hready
      cases hready
    · rw [ht] at htimer
      cases htimer
    · exact hqueue
  intro t hmem
  by_contra hdone
  have hqueue := hwaits t hmem (by simpa using hdone)
  cases hh : s.world.turnstile.holder with
  | none =>
    rw [h.guarded.fair.led hh] at hqueue
    cases hqueue
  | some i =>
    -- The holder of the lock would wait for it as well.
    have hin : i ∈ s.world.turnstile.inside := by
      simp [Turnstile.inside, hh]
    obtain ⟨u, hu, rfl, hinside⟩ := h.guarded.present i hin
    have hwait := hwaits u hu (Stage.outcome?_of_isInside hinside)
    have hdistinct := h.guarded.fair.distinct
    simp only [Turnstile.inside, hh, Option.toList_some, List.singleton_append,
      List.nodup_cons] at hdistinct
    exact hdistinct.1 hwait

theorem map_outcome?_of_done {ts : List Task} (h : ∀ t ∈ ts, t.stage.outcome?.isSome) :
    ts.map (·.stage.outcome?) = (ts.filterMap (·.stage.outcome?)).map some := by
  induction ts with
  | nil => rfl
  | cons t ts ih =>
    obtain ⟨o, ho⟩ := Option.isSome_iff_exists.mp (h t List.mem_cons_self)
    rw [List.map_cons, List.filterMap_cons, ho, ih fun u hu => h u (List.mem_cons_of_mem _ hu)]
    rfl

theorem InHand.ofOrders {w : World σ} (hw : w.turnstile = .free) (hl : w.limiter.Bounded)
    (p : Peer σ) (c : Setup) (window : Nat) (orders : List Order) :
    InHand w.tasks orders (ofOrders w window orders) ∧ (ofOrders w window orders).Full := by
  refine InHand.commence p c ⟨.start hw, hl, by simp, ?_, rfl, rfl, rfl, rfl⟩
  exact Nat.lt_of_lt_of_le Nat.zero_lt_one (Nat.le_max_right _ _)

theorem ofOrders_cost_le (m : Nat) (w : World σ) (window : Nat) (orders : List Order) :
    (ofOrders w window orders).cost m orders.length ≤ enough m orders.length := by
  refine Nat.le_trans (commence_cost m orders.length _ orders) ?_
  simp [cost, work, enough]

end Schedule

namespace World

variable {σ : Type} {p : Peer σ} {c : Setup} {w w' : World σ} {window : Nat} {orders : List Order}

/-- No task is under way. -/
structure Idle (w : World σ) : Prop where
  unlocked : w.turnstile = .free
  bounded : w.limiter.Bounded

theorem Idle.start (date : UtcTime) (q : Quota) (credential : Option Credential) (peer : σ) :
    (start date (.ofQuota q) credential peer).Idle := ⟨rfl, .ofQuota q⟩

theorem run_done {s : Schedule σ} (hw : w.Idle)
    (hrun : (Schedule.ofOrders w window orders).run p c
      (Schedule.enough c.policy.maxRetries orders.length) = .ok s) :
    s.tasks.map (·.goal) = orders.map (·.goal) ∧
      s.tasks.map (·.deadline.isSome) = orders.map (·.deadline.isSome) ∧
      s.tasks.map (·.id) = List.range' w.tasks orders.length ∧
      (∀ t ∈ s.tasks, t.stage.outcome?.isSome) ∧
      s.world.tasks = w.tasks + orders.length ∧ s.world.Idle := by
  obtain ⟨hin, hfull⟩ := Schedule.InHand.ofOrders hw.unlocked hw.bounded p c window orders
  obtain ⟨hin', hfull', hready, htimers⟩ := Schedule.run_inHand hrun hin hfull
    (Schedule.ofOrders_cost_le _ w window orders)
  have hdone := hin'.done hready htimers
  have horders : s.orders = [] := by
    rcases hfull' with hnone | hle
    · exact hnone
    · have hzero : Schedule.underWay s.tasks = 0 := by
        simp only [Schedule.underWay, List.length_eq_zero_iff, List.dropWhile_eq_nil_iff]
        exact hdone
      have hroom := hin'.room
      omega
  have hgoals := hin'.goals
  have hlimits := hin'.limits
  rw [horders, List.map_nil, List.append_nil] at hgoals hlimits
  have hlen : s.tasks.length = orders.length := by
    simpa using congrArg List.length hgoals
  have hreach : Reaches p c ⟨w, []⟩ ⟨s.world, s.tasks⟩ := ofOrders_reaches hrun
  exact ⟨hgoals, hlimits, hlen ▸ hin'.ids, hdone, hlen ▸ hin'.count,
    hin'.guarded.free_of_done hdone, hreach.bounded hw.bounded⟩

theorem perform_ok {outcomes : List Outcome} (h : w.perform p c window orders = (w', .ok outcomes))
    (hw : w.Idle) :
    ∃ ts, Reaches p c ⟨w, []⟩ ⟨w', ts⟩ ∧ ts.map (·.goal) = orders.map (·.goal) ∧
      ts.map (·.deadline.isSome) = orders.map (·.deadline.isSome) ∧
      ts.map (·.id) = List.range' w.tasks orders.length ∧
      ts.map (·.stage.outcome?) = outcomes.map some ∧
      w'.tasks = w.tasks + orders.length ∧ w'.Idle := by
  unfold perform at h
  split at h
  · cases h
  · rename_i s hrun
    cases h
    obtain ⟨hgoals, hlimits, hids, hdone, hcount, hidle⟩ := run_done hw hrun
    exact ⟨s.tasks, ofOrders_reaches hrun, hgoals, hlimits, hids,
      Schedule.map_outcome?_of_done hdone, hcount, hidle⟩

theorem perform_task {outcomes : List Outcome}
    (h : w.perform p c window orders = (w', .ok outcomes)) (hw : w.Idle) {j : Nat} {o : Order}
    (ho : orders[j]? = some o) :
    ∃ ts t outcome, Reaches p c ⟨w, []⟩ ⟨w', ts⟩ ∧ t ∈ ts ∧ t.id = w.tasks + j ∧ t.goal = o.goal ∧
      t.deadline.isSome = o.deadline.isSome ∧ t.stage.outcome? = some outcome ∧
      outcomes[j]? = some outcome := by
  obtain ⟨ts, hr, hgoals, hlimits, hids, houtcomes, -⟩ := perform_ok h hw
  have hgoal := congrArg (·[j]?) hgoals
  have hlimit := congrArg (·[j]?) hlimits
  have hid := congrArg (·[j]?) hids
  have houtcome := congrArg (·[j]?) houtcomes
  simp only [List.getElem?_map, ho, Option.map_some] at hgoal hlimit hid houtcome
  obtain ⟨t, ht, hgoal⟩ := Option.map_eq_some_iff.mp hgoal
  obtain ⟨hj, -⟩ := List.getElem?_eq_some_iff.mp ho
  rw [ht] at hlimit hid houtcome
  rw [List.getElem?_range' hj, Nat.one_mul] at hid
  obtain ⟨outcome, hout, hdone⟩ := Option.map_eq_some_iff.mp houtcome.symm
  exact ⟨ts, t, outcome, hr, List.mem_of_getElem? ht, Option.some.inj hid, hgoal,
    Option.some.inj hlimit, hdone.symm, hout⟩

theorem perform_error {fault : Fault} (h : w.perform p c window orders = (w', .error fault))
    (hw : w.Idle) :
    ∃ w₁ ts, Reaches p c ⟨w, []⟩ ⟨w₁, ts⟩ ∧ (∃ t ∈ ts, t.step p c w₁ = .error fault) ∧
      Schedule.Begun w.tasks orders w₁ ts ∧ w' = { w₁ with turnstile := .free } := by
  unfold perform at h
  split at h
  · rename_i w₁ fault' hrun
    cases h
    obtain ⟨hin, hfull⟩ := Schedule.InHand.ofOrders hw.unlocked hw.bounded p c window orders
    obtain ⟨ts, hreach, hstep, hbegan⟩ := Schedule.run_fault_inHand hrun hin hfull
      (Schedule.ofOrders_cost_le _ w window orders)
    have hbegun := commence_reaches (p := p) (c := c) ⟨w, [], [], [], [], max window 1⟩ orders []
    exact ⟨w₁, ts, hbegun.trans hreach, hstep, hbegan, rfl⟩
  · cases h

theorem perform_reaches {result : Except Fault (List Outcome)}
    (h : w.perform p c window orders = (w', result)) (hw : w.Idle) :
    Reaches p c ⟨w, []⟩ ⟨w', []⟩ := by
  cases result with
  | ok outcomes =>
    obtain ⟨ts, hreach, -, -, -, -, -, hidle⟩ := perform_ok h hw
    have hclear := ((Guarded.start hw.unlocked).reaches hreach).clear p c
    rw [← hidle.unlocked] at hclear
    exact hreach.trans hclear
  | error fault =>
    obtain ⟨w₁, ts, hreach, -, -, rfl⟩ := perform_error h hw
    exact hreach.trans (((Guarded.start hw.unlocked).reaches hreach).clear p c)

/-- However tasks that are carried out together end, they are those of the orders. -/
theorem perform_begun {result : Except Fault (List Outcome)}
    (h : w.perform p c window orders = (w', result)) (hw : w.Idle) :
    ∃ w₁ ts, Reaches p c ⟨w, []⟩ ⟨w₁, ts⟩ ∧ Schedule.Begun w.tasks orders w₁ ts ∧
      w'.journal = w₁.journal := by
  cases result with
  | ok outcomes =>
    obtain ⟨ts, hreach, hgoals, -, hids, -, hcount, -⟩ := perform_ok h hw
    have hlen : ts.length = orders.length := by
      simpa using congrArg List.length hgoals
    exact ⟨w', ts, hreach, ⟨hlen ▸ hids, hlen ▸ hcount, fun t ht => hgoals ▸ List.mem_map_of_mem ht⟩, rfl⟩
  | error fault =>
    obtain ⟨w₁, ts, hreach, -, hbegun, rfl⟩ := perform_error h hw
    exact ⟨w₁, ts, hreach, hbegun, rfl⟩

theorem Idle.of_reaches (hw : w.Idle) (hr : Reaches p c ⟨w, []⟩ ⟨w', []⟩) : w'.Idle :=
  ⟨((Guarded.start hw.unlocked).reaches hr).free_of_done (by simp), hr.bounded hw.bounded⟩

end World

end CatalogClient
