import CatalogClient.Proofs.Pipeline.Unlimited
/-!
A schedule of one task, beside the same schedule without the deadline. The two take turn for turn the same
way until the deadline goes off; from then on nothing happens in the one, and the other goes on.
-/

namespace CatalogClient

open Traffic

namespace Traffic

variable {σ : Type} {p : Peer σ} {c : Setup} {w : World σ} {t : Task}

theorem put_one {t' : Task} (h : t'.id = t.id) : put [t] t' = [t'] := by
  simp [put, h]

theorem Guarded.inside_alone (h : Guarded ⟨w, [t]⟩) {i : Nat} (hi : i ∈ w.turnstile.inside) :
    i = t.id := by
  obtain ⟨u, hu, rfl, -⟩ := h.present i hi
  rw [List.mem_singleton.mp hu]

/-- Nobody else waits for the lock. -/
theorem Guarded.passedOn_alone (h : Guarded ⟨w, [t]⟩) (before : Turnstile) :
    Schedule.passedOn before w.turnstile t.id = [] := by
  unfold Schedule.passedOn
  split
  · rfl
  · rename_i hchange
    cases hh : w.turnstile.holder with
    | none => rfl
    | some i =>
      have hi : i = t.id := h.inside_alone (by simp [Turnstile.inside, hh])
      exact absurd (.inr (hi ▸ hh)) hchange

theorem Guarded.waits_alone (h : Guarded ⟨w, [t]⟩) (hw : t.step p c w = .ok none)
    (hu : t.stage.outcome? = none) : ∃ wake, t.stage.wake? = some wake ∧ w.now < wake := by
  rcases Task.step_wait hw with hdone | hwake | ⟨observed, hq, hh⟩
  · rw [hu] at hdone
    cases hdone
  · exact hwake
  · have hin : t.id ∈ w.turnstile.inside := h.inside t List.mem_cons_self (by rw [hq]; rfl)
    exfalso
    cases hl : w.turnstile.holder with
    | none =>
      have hqueue : w.turnstile.queue = [] := h.fair.led hl
      simp [Turnstile.inside, hl, hqueue] at hin
    | some i =>
      have hi : i = t.id := h.inside_alone (by simp [Turnstile.inside, hl])
      exact hh (hi ▸ hl)

end Traffic

theorem Instant.le_antisymm {a b : Instant} (h : a ≤ b) (h' : b ≤ a) : a = b := by
  cases a
  cases b
  exact congrArg Instant.mk (Nat.le_antisymm h h')

theorem Task.Move.started_eq {σ : Type} {p : Peer σ} {c : Setup} {w w' : World σ} {t t' : Task}
    (h : t.Move p c w w' t') : t'.started = t.started := by
  cases h <;> rfl

theorem Stage.outcome?_of_wake {s : Stage} {wake : Instant} (h : s.wake? = some wake) :
    s.outcome? = none := by
  cases s <;> cases h <;> rfl

theorem Task.step_of_wake {σ : Type} {p : Peer σ} {c : Setup} {w : World σ} {t : Task} {wake : Instant}
    (hs : t.stage.wake? = some wake) (h : w.now < wake) : t.step p c w = .ok none := by
  have hlate : ¬ wake ≤ w.now := Nat.not_le_of_lt h
  unfold step
  cases hstage : t.stage <;> rw [hstage] at hs <;> cases hs <;> exact if_neg hlate

namespace Schedule

variable {σ : Type} {p : Peer σ} {c : Setup} {e : Instant} {s : Schedule σ} {t : Task}

theorem foldl_sooner_of_least {timers : List Timer} {best time : Instant}
    (hmem : best = time ∨ ∃ x ∈ timers, x.time = time) (hbest : time ≤ best)
    (hle : ∀ x ∈ timers, time ≤ x.time) : timers.foldl sooner (some best) = some time := by
  induction timers generalizing best with
  | nil =>
    rcases hmem with rfl | ⟨x, hx, -⟩
    · rfl
    · cases hx
  | cons x timers ih =>
    have hx : time ≤ x.time := hle x List.mem_cons_self
    have hrest : ∀ y ∈ timers, time ≤ y.time := fun y hy => hle y (List.mem_cons_of_mem _ hy)
    by_cases hlt : x.time < best
    · refine (congrArg (fun i => timers.foldl sooner (some i)) (if_pos hlt)).trans (ih ?_ hx hrest)
      rcases hmem with rfl | ⟨y, hy, ht⟩
      · exact absurd hlt (Nat.not_lt_of_le hx)
      · rcases List.mem_cons.mp hy with rfl | hy
        · exact .inl ht
        · exact .inr ⟨y, hy, ht⟩
    · refine (congrArg (fun i => timers.foldl sooner (some i)) (if_neg hlt)).trans (ih ?_ hbest hrest)
      rcases hmem with rfl | ⟨y, hy, ht⟩
      · exact .inl rfl
      · rcases List.mem_cons.mp hy with rfl | hy
        · cases ht
          exact .inl (Instant.le_antisymm (Nat.le_of_not_lt hlt) hbest)
        · exact .inr ⟨y, hy, ht⟩

theorem nextTime?_of_least {timers : List Timer} {time : Instant} {x : Timer} (hx : x ∈ timers)
    (ht : x.time = time) (hle : ∀ y ∈ timers, time ≤ y.time) : nextTime? timers = some time := by
  cases timers with
  | nil => cases hx
  | cons y timers =>
    refine foldl_sooner_of_least ?_ (hle y List.mem_cons_self)
      fun z hz => hle z (List.mem_cons_of_mem _ hz)
    rcases List.mem_cons.mp hx with rfl | hx
    · exact .inl ht
    · exact .inr ⟨x, hx, ht⟩

theorem enqueue_one {due : List Nat} {i : Nat} (hi : i ∈ due) (h : ∀ j ∈ due, j = i) :
    enqueue [] due = [i] := by
  have hagain : ∀ due : List Nat, (∀ j ∈ due, j = i) → enqueue [i] due = [i] := by
    intro due h
    induction due with
    | nil => rfl
    | cons j due ih =>
      cases h j List.mem_cons_self
      exact (congrArg (enqueue · due) (if_pos List.mem_cons_self)).trans
        (ih fun k hk => h k (List.mem_cons_of_mem _ hk))
  cases due with
  | nil => cases hi
  | cons j due =>
    cases h j List.mem_cons_self
    exact hagain due fun k hk => h k (List.mem_cons_of_mem _ hk)

theorem run_rested (fuel : Nat) (hr : s.ready = []) (ht : s.timers = []) : s.run p c fuel = .ok s := by
  cases fuel with
  | zero => rfl
  | succ fuel => simp [run, hr, ht, nextTime?]

theorem run_elapses {time : Instant} (fuel : Nat) (hr : s.ready = [])
    (ht : nextTime? s.timers = some time) : s.run p c (fuel + 1) = (s.elapse time).run p c fuel := by
  simp only [run, hr, ht]

theorem run_polls (fuel : Nat) (hr : s.ready = [t.id]) (ht : s.tasks = [t]) :
    s.run p c (fuel + 1) = { s with ready := [] }.poll p c fuel t >>= run p c fuel := by
  simp only [run, hr, ht]
  simp

theorem poll_of_advance {fuel : Nat} (ho : s.orders = []) {w₁ w₂ : World σ} {t₁ t₂ : Task}
    {woken freed : List Nat} (ha : advance p c fuel s.world t [] = .ok (w₁, t₁, woken))
    (hd : checkDeadline w₁ t₁ = (w₂, t₂, freed)) :
    s.poll p c fuel t = .ok (s.settle w₂ t₂ (woken ++ freed)) := by
  obtain ⟨world, tasks, ready, timers, orders, window⟩ := s
  cases ho
  simp only [poll, ha, bind, Except.bind, hd, commence]
  rfl

theorem settle_unlimited (s : Schedule σ) (w : World σ) (t : Task) (woken : List Nat) :
    s.unlimited.settle w t.unlimited woken = (s.settle w t woken).unlimited := by
  simp only [settle, unlimited, put_unlimited, resetTimers_unlimited]

theorem poll_unlimited {fuel : Nat} (ho : s.orders = []) {w₁ : World σ} {t₁ : Task}
    {woken : List Nat} (ha : advance p c fuel s.world t [] = .ok (w₁, t₁, woken)) :
    s.unlimited.poll p c.unlimited fuel t.unlimited = .ok (s.settle w₁ t₁ woken).unlimited := by
  have ha' := advance_unlimited p c fuel s.world t []
  rw [ha] at ha'
  have ho' : s.unlimited.orders = [] := congrArg (List.map Order.unlimited) ho
  rw [poll_of_advance ho' ha' (checkDeadline_unlimited w₁ t₁), List.append_nil, settle_unlimited]


theorem advance_alone {fuel : Nat} {w w₁ : World σ} {t₁ : Task} {woken : List Nat}
    (h : advance p c fuel w t [] = .ok (w₁, t₁, woken)) (hg : Guarded ⟨w, [t]⟩) :
    Reaches p c ⟨w, [t]⟩ ⟨w₁, [t₁]⟩ ∧ woken = [] ∧ t₁.started = t.started ∧
      (t₁.stage.outcome? = none → t.stage.outcome? = none) := by
  induction fuel generalizing w t with
  | zero =>
    cases h
    exact ⟨.refl, rfl, rfl, fun hu => hu⟩
  | succ fuel ih =>
    unfold advance at h
    split at h
    · cases h
    · cases h
      exact ⟨.refl, rfl, rfl, fun hu => hu⟩
    · rename_i w₂ t₂ hstep
      have hm := Task.step_move hstep
      have hfirst : Step p c ⟨w, [t]⟩ ⟨w₂, [t₂]⟩ := by
        have hput := Step.move (p := p) (c := c) (List.mem_singleton_self t) hstep
        rwa [put_one hm.id_eq] at hput
      have hg₂ := hg.step hfirst
      have hnone := hg₂.passedOn_alone w.turnstile
      rw [hm.id_eq] at hnone
      rw [hnone] at h
      obtain ⟨hr, hwoken, hstarted, -⟩ := ih h hg₂
      exact ⟨.head hfirst hr, hwoken, hstarted.trans hm.started_eq, fun _ => hm.undone⟩

theorem now_of_advance_error {fuel : Nat} {w w₁ : World σ} {woken : List Nat} {fault : Fault}
    (h : advance p c fuel w t woken = .error (w₁, fault)) : w₁.now = w.now := by
  induction fuel generalizing w t woken with
  | zero => cases h
  | succ fuel ih =>
    unfold advance at h
    split at h
    · cases h
      rfl
    · cases h
    · rename_i w₂ t₂ hstep
      exact (ih h).trans (Task.step_move hstep).now_eq

theorem mem_resetTimers {timers : List Timer} {x : Timer} (h : x ∈ resetTimers timers t) :
    x ∈ owned t ∨ x ∈ timers ∧ (t.stage.outcome?.isSome → x.task ≠ t.id) ∧
      (x.task = t.id → x.isDeadline ∨ some x.time = t.stage.wake?) := by
  unfold resetTimers at h
  by_cases hd : t.stage.outcome?.isSome
  · rw [if_pos hd] at h
    obtain ⟨hx, hother⟩ := List.mem_filter.mp h
    have hother : x.task ≠ t.id := of_decide_eq_true hother
    exact .inr ⟨hx, fun _ => hother, fun hown => absurd hown hother⟩
  · rw [if_neg hd] at h
    rcases List.mem_append.mp h with hkept | hnew
    · obtain ⟨hx, hcause⟩ := List.mem_filter.mp hkept
      have hcause : x.task ≠ t.id ∨ x.isDeadline ∨ some x.time = t.stage.wake? :=
        of_decide_eq_true hcause
      exact .inr ⟨hx, fun hdone => absurd hdone hd, fun hown => hcause.resolve_left (· hown)⟩
    · left
      rw [owned, if_neg hd]
      exact (List.mem_filter.mp hnew).1

/-- The schedule has one task, with this deadline. -/
structure Alone (e : Instant) (s : Schedule σ) (t : Task) : Prop where
  tasks : s.tasks = [t]
  orders : s.orders = []
  limit : t.deadline = some e
  own : ∀ x ∈ s.timers, x.task = t.id ∧ (x.isDeadline → x.time = e)

/-- The task waits until the instant named, and every timer is its own. -/
structure Waits (e : Instant) (s : Schedule σ) (t : Task) (wake : Instant) : Prop where
  ready : s.ready = []
  wakes : t.stage.wake? = some wake
  later : s.world.now < wake
  timer : ⟨wake, t.id, false⟩ ∈ s.timers
  limit : ⟨e, t.id, true⟩ ∈ s.timers
  only : ∀ x ∈ s.timers, ¬ x.isDeadline → x.time = wake

/-- Where the schedule stands between two turns, as long as the deadline has not struck. -/
inductive Phase (e : Instant) (s : Schedule σ) (t : Task) : Prop
  | due (hr : s.ready = [t.id]) (hnow : s.world.now ≤ e)
  | waiting {wake : Instant} (hw : s.Waits e t wake) (hnow : s.world.now < e)
  | done (hr : s.ready = []) (ht : s.timers = []) (hnow : s.world.now ≤ e)

theorem Alone.popped (h : s.Alone e t) : Alone e { s with ready := [] } t :=
  ⟨h.tasks, h.orders, h.limit, h.own⟩

theorem Alone.settle (h : s.Alone e t) {w₁ : World σ} {t₁ : Task} (hid : t₁.id = t.id)
    (hlimit : t₁.deadline = t.deadline) (woken : List Nat) : (s.settle w₁ t₁ woken).Alone e t₁ := by
  refine ⟨?_, h.orders, hlimit.trans h.limit, ?_⟩
  · change put s.tasks t₁ = _
    rw [h.tasks, put_one hid]
  · intro x hx
    rcases mem_resetTimers hx with howned | ⟨hx, -⟩
    · refine ⟨task_of_owned howned, fun hdeadline => ?_⟩
      unfold owned at howned
      split at howned
      · cases howned
      · simp only [hlimit, h.limit, List.mem_append, Option.mem_toList, Option.map_eq_some_iff] at howned
        rcases howned with ⟨wake, -, rfl⟩ | ⟨time, htime, rfl⟩
        · cases hdeadline
        · exact (Option.some.inj htime).symm
    · rw [hid]
      exact h.own x hx

theorem Alone.settle_done (h : s.Alone e t) (hr : s.ready = []) (w₁ : World σ) {t₁ : Task}
    (hid : t₁.id = t.id) (hd : t₁.stage.outcome?.isSome) :
    (s.settle w₁ t₁ []).ready = [] ∧ (s.settle w₁ t₁ []).timers = [] := by
  refine ⟨hr, List.eq_nil_iff_forall_not_mem.mpr fun x hx => ?_⟩
  rcases mem_resetTimers hx with howned | ⟨hx, hother, -⟩
  · simp [owned, hd] at howned
  · exact hother hd ((h.own x hx).1.trans hid.symm)

theorem Alone.settle_waits (h : s.Alone e t) (hr : s.ready = []) {w₁ : World σ} {t₁ : Task}
    {wake : Instant} (hid : t₁.id = t.id) (hlimit : t₁.deadline = t.deadline)
    (hs : t₁.stage.wake? = some wake) (hwake : w₁.now < wake) : (s.settle w₁ t₁ []).Waits e t₁ wake := by
  have howned : owned t₁ = [⟨wake, t₁.id, false⟩, ⟨e, t₁.id, true⟩] := by
    simp [owned, Stage.outcome?_of_wake hs, hs, hlimit, h.limit]
  refine ⟨hr, hs, hwake, ?_, ?_, fun x hx hwakes => ?_⟩
  · exact mem_resetTimers_owned _ (by simp [howned])
  · exact mem_resetTimers_owned _ (by simp [howned])
  · rcases mem_resetTimers hx with hx | ⟨hx, -, hcause⟩
    · rw [howned] at hx
      rcases List.mem_cons.mp hx with rfl | hx
      · rfl
      · rw [List.mem_singleton.mp hx] at hwakes
        exact absurd rfl hwakes
    · have hkept := (hcause ((h.own x hx).1.trans hid.symm)).resolve_left hwakes
      exact Option.some.inj (hkept.trans hs)

theorem elapse_ready (hr : s.ready = []) {i : Nat} (hown : ∀ x ∈ s.timers, x.task = i)
    {time : Instant} {x : Timer} (hx : x ∈ s.timers) (hle : x.time ≤ time) :
    (s.elapse time).ready = [i] := by
  change enqueue s.ready _ = _
  rw [hr]
  refine enqueue_one (List.mem_map.mpr ⟨x, List.mem_filter.mpr ⟨hx, decide_eq_true hle⟩, hown x hx⟩)
    fun j hj => ?_
  obtain ⟨y, hy, rfl⟩ := List.mem_map.mp hj
  exact hown y (List.mem_filter.mp hy).1

theorem Alone.elapse (h : s.Alone e t) (time : Instant) : (s.elapse time).Alone e t :=
  ⟨h.tasks, h.orders, h.limit, fun x hx => h.own x (List.mem_filter.mp hx).1⟩

/-- The world in which a run ends, with a fault or without. -/
def ending : Except (World σ × Fault) (Schedule σ) → World σ
  | .error (w, _) => w
  | .ok s => s.world

theorem run_ends (fuel : Nat) (hs : Sound ⟨s.world, s.tasks⟩) :
    ∃ ts, Reaches p c ⟨s.world, s.tasks⟩ ⟨ending (s.run p c fuel), ts⟩ := by
  generalize hrun : s.run p c fuel = x
  cases x with
  | ok s' =>
    have hreach : Reaches p c ⟨s.world, [] ++ s.tasks⟩ ⟨s'.world, [] ++ s'.tasks⟩ := run_reaches hrun hs
    exact ⟨s'.tasks, hreach⟩
  | error y =>
    induction fuel generalizing s with
    | zero => cases hrun
    | succ fuel ih =>
      rcases run_error hrun with ⟨i, ready, t, -, hf, ha⟩ | ⟨s₁, hturn, hrun⟩
      · obtain ⟨ts, hr, -⟩ := advance_reaches_fault ha hs (List.mem_of_find?_eq_some hf)
        exact ⟨ts, hr⟩
      · have hfirst : Reaches p c ⟨s.world, [] ++ s.tasks⟩ ⟨s₁.world, [] ++ s₁.tasks⟩ :=
          turn_reaches hturn hs
        obtain ⟨ts, hr⟩ := ih (hs.reaches hfirst) hrun
        exact ⟨ts, hfirst.trans hr⟩

/-- How the run with the deadline compares to the run without it: they are the same and end in time, or
the task expires when the deadline strikes, and has to wait longer in the other run. -/
inductive Truncates (p : Peer σ) (c : Setup) (e : Instant) (w : World σ) (t : Task) :
    Except (World σ × Fault) (Schedule σ) → Except (World σ × Fault) (Schedule σ) → Prop
  | same {x : Except (World σ × Fault) (Schedule σ)} (h : (ending x).now ≤ e) :
    Truncates p c e w t x (x.map unlimited)
  | cut {v : World σ} {u : Task} {wake : Instant} {s' : Schedule σ}
    {y : Except (World σ × Fault) (Schedule σ)} {ts : List Task}
    (before : Reaches p c ⟨w, [t]⟩ ⟨v, [u]⟩) (hnow : v.now ≤ e) (hid : u.id = t.id)
    (hstarted : u.started = t.started) (hwake : e < wake)
    (hworld : s'.world = (u.expire { v with now := e }).1)
    (htasks : s'.tasks = [(u.expire { v with now := e }).2])
    (after : Reaches p c.unlimited ⟨{ v with now := wake }, [u.unlimited]⟩ ⟨ending y, ts⟩) :
    Truncates p c e w t (.ok s') y

theorem Truncates.before {w w₁ : World σ} {t₁ : Task} {x y : Except (World σ × Fault) (Schedule σ)}
    (h : Truncates p c e w₁ t₁ x y) (hr : Reaches p c ⟨w, [t]⟩ ⟨w₁, [t₁]⟩) (hid : t₁.id = t.id)
    (hstarted : t₁.started = t.started) : Truncates p c e w t x y := by
  cases h with
  | same h => exact .same h
  | cut hbefore hnow hid' hstarted' hwake hworld htasks hafter =>
    exact .cut (hr.trans hbefore) hnow (hid'.trans hid) (hstarted'.trans hstarted) hwake hworld htasks
      hafter

theorem Alone.run_expires (h : s.Alone e t) (hr : s.ready = [t.id]) {fuel : Nat} {w₁ : World σ}
    {t₁ : Task} (ha : advance p c fuel s.world t [] = .ok (w₁, t₁, [])) (hg : Guarded ⟨w₁, [t₁]⟩)
    (hid : t₁.id = t.id) (hlimit : t₁.deadline = t.deadline) (hu : t₁.stage.outcome? = none)
    (he : e ≤ w₁.now) : ∃ s', s.run p c (fuel + 1) = .ok s' ∧ s'.world = (t₁.expire w₁).1 ∧
      s'.tasks = [(t₁.expire w₁).2] := by
  have hany : t₁.deadline.any (· ≤ w₁.now) := by
    rw [hlimit, h.limit]
    exact decide_eq_true he
  have hg' : Guarded ⟨(t₁.expire w₁).1, [(t₁.expire w₁).2]⟩ := by
    have hone : put [t₁] (t₁.expire w₁).2 = [(t₁.expire w₁).2] := put_one rfl
    rw [← hone]
    exact hg.step (.expire (p := p) (c := c) (List.mem_singleton_self t₁) hu hany)
  have hcheck : checkDeadline w₁ t₁ = ((t₁.expire w₁).1, (t₁.expire w₁).2, []) := by
    unfold checkDeadline
    rw [if_pos ⟨Option.isNone_iff_eq_none.mpr hu, hany⟩]
    exact congrArg (fun freed => (_, _, freed)) (hg'.passedOn_alone w₁.turnstile)
  have hid' : (t₁.expire w₁).2.id = t.id := hid
  obtain ⟨hready, htimers⟩ := h.popped.settle_done rfl (t₁.expire w₁).1 hid' rfl
  refine ⟨_, ?_, rfl, (h.popped.settle hid' hlimit []).tasks⟩
  rw [run_polls fuel hr h.tasks, poll_of_advance (s := { s with ready := [] }) h.orders ha hcheck]
  exact run_rested fuel hready htimers

theorem Phase.now_le (h : Phase e s t) : s.world.now ≤ e := by
  cases h with
  | due hr hnow => exact hnow
  | waiting hw hnow => exact Nat.le_of_lt hnow
  | done hr ht hnow => exact hnow

theorem Alone.unlimited_tasks (h : s.Alone e t) : s.unlimited.tasks = [t.unlimited] :=
  congrArg (List.map Task.unlimited) h.tasks

theorem Alone.run_polls_unlimited (h : s.Alone e t) (hr : s.ready = [t.id]) (fuel : Nat) :
    s.unlimited.run p c.unlimited (fuel + 1) =
      ({ s with ready := [] } : Schedule σ).unlimited.poll p c.unlimited fuel t.unlimited >>=
        run p c.unlimited fuel :=
  run_polls fuel hr h.unlimited_tasks

theorem poll_of_fault {fuel : Nat} {y : World σ × Fault}
    (ha : advance p c fuel s.world t [] = .error y) : s.poll p c fuel t = .error y := by
  simp only [poll, ha, bind, Except.bind]

theorem Waits.next_unlimited {wake : Instant} (h : s.Waits e t wake) :
    nextTime? s.unlimited.timers = some wake := by
  refine nextTime?_of_least (x := ⟨wake, t.id, false⟩) (List.mem_filter.mpr ⟨h.timer, rfl⟩) rfl ?_
  intro y hy
  obtain ⟨hy, hwakes⟩ := List.mem_filter.mp hy
  rw [h.only y hy (by simpa using hwakes)]
  exact Nat.le_refl _

theorem Alone.next {wake : Instant} (h : s.Alone e t) (hw : s.Waits e t wake) :
    nextTime? s.timers = some (if e < wake then e else wake) := by
  have hleast : ∀ y ∈ s.timers, y.time = e ∨ y.time = wake := by
    intro y hy
    by_cases hd : y.isDeadline
    · exact .inl ((h.own y hy).2 hd)
    · exact .inr (hw.only y hy hd)
  by_cases hlt : e < wake
  · rw [if_pos hlt]
    refine nextTime?_of_least hw.limit rfl fun y hy => ?_
    rcases hleast y hy with he | he <;> rw [he]
    · exact Nat.le_refl _
    · exact Nat.le_of_lt hlt
  · rw [if_neg hlt]
    refine nextTime?_of_least hw.timer rfl fun y hy => ?_
    rcases hleast y hy with he | he <;> rw [he]
    · exact Nat.le_of_not_lt hlt
    · exact Nat.le_refl _

theorem elapse_world {time : Instant} (h : s.world.now < time) :
    (s.elapse time).world = { s.world with now := time } := by
  have hle : s.world.now ≤ time := Nat.le_of_lt h
  simp only [elapse, if_pos hle]

/-- Without its deadline the task goes on when it wakes. -/
theorem Alone.goes_on {wake : Instant} (h : s.Alone e t) (hw : s.Waits e t wake)
    (hs : Sound ⟨s.world, [t]⟩) (fuel : Nat) :
    ∃ ts, Reaches p c.unlimited ⟨{ s.world with now := wake }, [t.unlimited]⟩
      ⟨ending (s.unlimited.run p c.unlimited (fuel + 1)), ts⟩ := by
  have hworld : (s.unlimited.elapse wake).world = { s.world with now := wake } :=
    elapse_world (s := s.unlimited) hw.later
  have htasks : (s.unlimited.elapse wake).tasks = [t.unlimited] := h.unlimited_tasks
  have hsound : Sound ⟨(s.unlimited.elapse wake).world, (s.unlimited.elapse wake).tasks⟩ := by
    rw [hworld, htasks]
    refine ⟨List.nodup_singleton _, fun u hu => ?_⟩
    rw [List.mem_singleton.mp hu]
    exact hs.begun t List.mem_cons_self
  rw [run_elapses (s := s.unlimited) fuel hw.ready hw.next_unlimited, ← hworld, ← htasks]
  exact run_ends fuel hsound

section Run

variable {base fuel : Nat} {orders : List Order} {w₁ : World σ} {t₁ : Task}

/-- What the task has come to after a turn. -/
structure Went (p : Peer σ) (c : Setup) (w : World σ) (t : Task) (w₁ : World σ) (t₁ : Task) :
    Prop where
  reaches : Reaches p c ⟨w, [t]⟩ ⟨w₁, [t₁]⟩
  guarded : Guarded ⟨w₁, [t₁]⟩
  waits : t₁.step p c w₁ = .ok none
  undone : t₁.stage.outcome? = none → t.stage.outcome? = none
  now_eq : w₁.now = w.now
  id_eq : t₁.id = t.id
  deadline_eq : t₁.deadline = t.deadline
  started_eq : t₁.started = t.started

theorem Alone.went (h : s.Alone e t) (hr : s.ready = [t.id]) (hin : InHand base orders s)
    (hcost : s.cost c.policy.maxRetries orders.length ≤ fuel + 1) {woken : List Nat}
    (ha : advance p c fuel s.world t [] = .ok (w₁, t₁, woken)) :
    woken = [] ∧ Went p c s.world t w₁ t₁ := by
  have hg : Guarded ⟨s.world, [t]⟩ := h.tasks ▸ hin.guarded
  have hone : [t].length ≤ orders.length := h.tasks ▸ hin.length_le
  have hwork : work c.policy.maxRetries orders.length s.world.limiter [t] ≤ fuel := by
    simp only [cost, hr, h.tasks, List.length_singleton] at hcost
    omega
  obtain ⟨hreach, hwoken, hstarted, hundone⟩ := advance_alone ha hg
  obtain ⟨hwait, _, -, hway⟩ :=
    advance_headway ha hg hin.bounded (List.mem_singleton_self t) hone hwork
  exact ⟨hwoken, hreach, hg.reaches hreach, hwait, hundone, hway.now_eq, hway.id_eq, hway.deadline_eq,
    hstarted⟩

theorem Alone.settle_phase (h : s.Alone e t) (hg : Went p c s.world t w₁ t₁) (hr : s.ready = [])
    (hnow : s.world.now ≤ e) (hgo : t₁.stage.outcome?.isSome ∨ s.world.now < e) :
    Phase e (s.settle w₁ t₁ []) t₁ := by
  have hnow₁ : (s.settle w₁ t₁ []).world.now = s.world.now := hg.now_eq
  cases hd : t₁.stage.outcome? with
  | some o =>
    obtain ⟨hready, htimers⟩ := h.settle_done hr w₁ hg.id_eq (by rw [hd]; rfl)
    exact .done hready htimers (hnow₁ ▸ hnow)
  | none =>
    obtain ⟨wake, hs, hwake⟩ := hg.guarded.waits_alone hg.waits hd
    rw [hd] at hgo
    exact .waiting (h.settle_waits hr hg.id_eq hg.deadline_eq hs hwake)
      (hnow₁ ▸ hgo.resolve_left (by simp))

/-- The deadline strikes at the end of a turn. -/
theorem Alone.truncates_of_turn (h : s.Alone e t) (hg : Went p c s.world t w₁ t₁)
    (hcost : s.cost c.policy.maxRetries orders.length ≤ fuel + 1) (hr : s.ready = [t.id])
    (ha : advance p c fuel s.world t [] = .ok (w₁, t₁, [])) (hu : t₁.stage.outcome? = none)
    (hnow : s.world.now = e) :
    Truncates p c e s.world t (s.run p c (fuel + 1)) (s.unlimited.run p c.unlimited (fuel + 1)) := by
  obtain ⟨fuel, rfl⟩ : ∃ n, fuel = n + 1 := by
    have hpos := work_pos (n := orders.length) c.policy.maxRetries (l := s.world.limiter)
      (List.mem_singleton_self t) (hg.undone hu)
    simp only [cost, h.tasks] at hcost
    exact ⟨fuel - 1, by omega⟩
  have hsame : { w₁ with now := e } = w₁ := by
    rw [← hnow, ← hg.now_eq]
  have he : e ≤ w₁.now := Nat.le_of_eq (by rw [hg.now_eq, hnow])
  obtain ⟨s', hrun, hworld, htasks⟩ := h.run_expires hr ha hg.guarded hg.id_eq hg.deadline_eq hu he
  obtain ⟨wake, hs, hwake⟩ := hg.guarded.waits_alone hg.waits hu
  obtain ⟨ts, hafter⟩ := (h.popped.settle hg.id_eq hg.deadline_eq []).goes_on (p := p) (c := c)
    (h.popped.settle_waits rfl hg.id_eq hg.deadline_eq hs hwake) hg.guarded.sound fuel
  rw [hrun, h.run_polls_unlimited hr, poll_unlimited (s := { s with ready := [] }) h.orders ha]
  refine .cut hg.reaches ?_ hg.id_eq hg.started_eq (Nat.lt_of_le_of_lt he hwake) ?_ ?_ hafter
  · exact Nat.le_of_eq (by rw [hg.now_eq, hnow])
  · rw [hsame, hworld]
  · rw [hsame, htasks]

/-- The deadline strikes while the task waits. -/
theorem Alone.truncates_of_wait (h : s.Alone e t) (hin : InHand base orders s)
    (hcost : s.cost c.policy.maxRetries orders.length ≤ fuel + 1) {wake : Instant}
    (hw : s.Waits e t wake) (hnow : s.world.now < e) (hwake : e < wake) :
    Truncates p c e s.world t (s.run p c (fuel + 1)) (s.unlimited.run p c.unlimited (fuel + 1)) := by
  have hg : Guarded ⟨s.world, [t]⟩ := h.tasks ▸ hin.guarded
  have hnext : nextTime? s.timers = some e := by
    rw [h.next hw, if_pos hwake]
  have hready : (s.elapse e).ready = [t.id] :=
    elapse_ready hw.ready (fun x hx => (h.own x hx).1) hw.limit (Nat.le_refl _)
  have hworld := elapse_world hnow
  have hwaits : t.step p c (s.elapse e).world = .ok none :=
    Task.step_of_wake hw.wakes (by rw [hworld]; exact hwake)
  have hundone := Stage.outcome?_of_wake hw.wakes
  have hless := elapse_cost c.policy.maxRetries orders.length hw.ready hnext
  obtain ⟨fuel, rfl⟩ : ∃ n, fuel = n + 1 := by
    have hone : 1 ≤ (s.elapse e).cost c.policy.maxRetries orders.length := by
      simp only [cost, hready, List.length_singleton]
      omega
    exact ⟨fuel - 1, by omega⟩
  have ha : advance p c fuel (s.elapse e).world t [] = .ok ((s.elapse e).world, t, []) := by
    cases fuel with
    | zero => rfl
    | succ fuel => simp only [advance, hwaits]
  have hg' : Guarded ⟨(s.elapse e).world, [t]⟩ := by
    have hin' := (hin.elapse p c hw.ready e).guarded
    rwa [(h.elapse e).tasks] at hin'
  obtain ⟨s', hrun, hworld', htasks⟩ := (h.elapse e).run_expires hready ha hg' rfl rfl hundone
    (by rw [hworld]; exact Nat.le_refl _)
  obtain ⟨ts, hafter⟩ := h.goes_on (p := p) (c := c) hw hg.sound (fuel + 1)
  rw [run_elapses _ hw.ready hnext, hrun]
  rw [hworld] at hworld' htasks
  exact .cut .refl (Nat.le_of_lt hnow) rfl rfl hwake hworld' htasks hafter

theorem Alone.elapse_unlimited (h : s.Alone e t) {wake : Instant} (hw : s.Waits e t wake) :
    s.unlimited.elapse wake = (s.elapse wake).unlimited := by
  have hown : ∀ x ∈ s.timers, x.task = t.id := fun x hx => (h.own x hx).1
  have hready : (s.elapse wake).ready = [t.id] :=
    elapse_ready hw.ready hown hw.timer (Nat.le_refl _)
  have hready' : (s.unlimited.elapse wake).ready = [t.id] :=
    elapse_ready (s := s.unlimited) hw.ready (fun x hx => hown x (List.mem_filter.mp hx).1)
      (List.mem_filter.mpr ⟨hw.timer, rfl⟩) (Nat.le_refl _)
  have htimers : (s.unlimited.elapse wake).timers = (s.elapse wake).unlimited.timers :=
    filter_wakes s.timers _
  change Schedule.mk _ _ _ _ _ _ = Schedule.mk _ _ _ _ _ _
  rw [Schedule.mk.injEq]
  exact ⟨rfl, rfl, hready'.trans hready.symm, htimers, rfl, rfl⟩

theorem run_truncates (h : s.Alone e t) (hphase : Phase e s t)
    (hin : InHand base orders s) (hfull : s.Full)
    (hcost : s.cost c.policy.maxRetries orders.length ≤ fuel) :
    Truncates p c e s.world t (s.run p c fuel) (s.unlimited.run p c.unlimited fuel) := by
  induction fuel generalizing s t with
  | zero => exact .same (x := .ok s) hphase.now_le
  | succ fuel ih =>
    cases hphase with
    | done hr ht hnow =>
      have ht' : s.unlimited.timers = [] := congrArg (List.filter fun x : Timer => ! x.isDeadline) ht
      rw [run_rested _ hr ht, run_rested (s := s.unlimited) _ hr ht']
      exact .same (x := .ok s) hnow
    | due hr hnow =>
      cases ha : advance p c fuel s.world t [] with
      | error y =>
        obtain ⟨w₁, fault⟩ := y
        have ha' := advance_unlimited p c fuel s.world t []
        rw [ha] at ha'
        rw [run_polls fuel hr h.tasks, h.run_polls_unlimited hr,
          poll_of_fault (s := { s with ready := [] }) ha,
          poll_of_fault (s := ({ s with ready := [] } : Schedule σ).unlimited) ha']
        refine .same (x := .error (w₁, fault)) ?_
        rw [ending, now_of_advance_error ha]
        exact hnow
      | ok y =>
        obtain ⟨w₁, t₁, woken⟩ := y
        obtain ⟨rfl, hg⟩ := h.went hr hin hcost ha
        by_cases hgo : t₁.stage.outcome?.isSome ∨ s.world.now < e
        · have hcheck : checkDeadline w₁ t₁ = (w₁, t₁, []) := by
            refine if_neg fun ⟨hu, hstrikes⟩ => ?_
            rw [hg.deadline_eq, h.limit, hg.now_eq] at hstrikes
            rcases hgo with hdone | hlt
            · simp [Option.isNone_iff_eq_none.mp hu] at hdone
            · exact Nat.not_lt_of_le (of_decide_eq_true hstrikes) hlt
          have hpoll := poll_of_advance (s := { s with ready := [] }) h.orders ha hcheck
          have hpoll' := poll_unlimited (s := { s with ready := [] }) h.orders ha
          obtain ⟨hin', hfull', hless⟩ := turn_inHand (.poll hr (by simp [h.tasks]) hpoll) hin hfull hcost
          rw [run_polls fuel hr h.tasks, h.run_polls_unlimited hr, hpoll, hpoll']
          refine Truncates.before (ih (h.popped.settle hg.id_eq hg.deadline_eq []) ?_ hin' hfull' (by omega))
            hg.reaches hg.id_eq hg.started_eq
          exact h.popped.settle_phase hg rfl hnow hgo
        · rw [not_or] at hgo
          have hu : t₁.stage.outcome? = none := by simpa using hgo.1
          exact h.truncates_of_turn hg hcost hr ha hu (Instant.le_antisymm hnow (Nat.le_of_not_lt hgo.2))
    | @waiting wake hw hnow =>
      by_cases hlate : e < wake
      · exact h.truncates_of_wait hin hcost hw hnow hlate
      · have hnext : nextTime? s.timers = some wake := by
          rw [h.next hw, if_neg hlate]
        have hturn : Turn p c fuel s (s.elapse wake) := .elapse hw.ready hnext
        obtain ⟨hin', hfull', hless⟩ := turn_inHand hturn hin hfull hcost
        rw [run_elapses _ hw.ready hnext, run_elapses (s := s.unlimited) _ hw.ready hw.next_unlimited,
          h.elapse_unlimited hw]
        have hready : (s.elapse wake).ready = [t.id] :=
          elapse_ready hw.ready (fun x hx => (h.own x hx).1) hw.timer (Nat.le_refl _)
        have hreach : Reaches p c ⟨s.world, [] ++ s.tasks⟩ ⟨(s.elapse wake).world, [] ++ s.tasks⟩ :=
          elapse_reaches s wake []
        rw [h.tasks] at hreach
        refine (ih (h.elapse wake) (.due hready ?_) hin' hfull' (by omega)).before hreach rfl rfl
        rw [elapse_world hw.later]
        exact Nat.le_of_not_lt hlate

end Run

end Schedule

end CatalogClient
