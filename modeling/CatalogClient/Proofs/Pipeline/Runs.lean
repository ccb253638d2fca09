import CatalogClient.Pipeline.Schedule
import CatalogClient.Proofs.Pipeline.Traffic
/-!
The turns of a schedule, and the traffic that a run of them makes.
-/

namespace CatalogClient

namespace Schedule

variable {σ : Type} {p : Peer σ} {c : Setup}

def settle (s : Schedule σ) (w : World σ) (t : Task) (woken : List Nat) : Schedule σ :=
  { s with
    world := w
    tasks := Traffic.put s.tasks t
    ready := enqueue s.ready woken
    timers := resetTimers s.timers t }

def join (s : Schedule σ) (o : Order) : Schedule σ :=
  { s with
    world := { s.world with tasks := s.world.tasks + 1 }
    tasks := s.tasks ++ [Task.start s.world s.world.tasks o.goal o.deadline]
    ready := s.ready ++ [s.world.tasks] }

theorem commence_cons (s : Schedule σ) (o : Order) (orders : List Order) :
    s.commence (o :: orders) =
      if underWay s.tasks < s.window then (s.join o).commence orders
      else { s with orders := o :: orders } := rfl

theorem poll_ok {fuel : Nat} {s s' : Schedule σ} {t : Task} (h : s.poll p c fuel t = .ok s') :
    ∃ w₁ t₁ woken w₂ t₂ freed, advance p c fuel s.world t [] = .ok (w₁, t₁, woken) ∧
      checkDeadline w₁ t₁ = (w₂, t₂, freed) ∧
      s' = (s.settle w₂ t₂ (woken ++ freed)).commence s.orders := by
  obtain ⟨⟨w₁, t₁, woken⟩, ha, h⟩ := except_bind_ok.mp h
  exact ⟨w₁, t₁, woken, _, _, _, ha, rfl, (Except.ok.inj h).symm⟩

theorem poll_error {fuel : Nat} {s : Schedule σ} {t : Task} {e : World σ × Fault}
    (h : s.poll p c fuel t = .error e) : advance p c fuel s.world t [] = .error e := by
  unfold poll at h
  cases ha : advance p c fuel s.world t [] with
  | error e' =>
    rw [ha] at h
    exact congrArg Except.error (Except.error.inj h)
  | ok r =>
    rw [ha] at h
    cases h

/-- What one unit of a run does. -/
inductive Turn (p : Peer σ) (c : Setup) (fuel : Nat) (s : Schedule σ) : Schedule σ → Prop
  | skip {i : Nat} {ready : List Nat} (hr : s.ready = i :: ready)
    (hf : s.tasks.find? (·.id = i) = none) : Turn p c fuel s { s with ready := ready }
  | poll {i : Nat} {ready : List Nat} {t : Task} {s' : Schedule σ} (hr : s.ready = i :: ready)
    (hf : s.tasks.find? (·.id = i) = some t)
    (hp : { s with ready := ready }.poll p c fuel t = .ok s') : Turn p c fuel s s'
  | elapse {time : Instant} (hr : s.ready = []) (ht : nextTime? s.timers = some time) :
    Turn p c fuel s (s.elapse time)

theorem run_ok {fuel : Nat} {s s' : Schedule σ} (h : s.run p c (fuel + 1) = .ok s') :
    (s.ready = [] ∧ nextTime? s.timers = none ∧ s' = s) ∨
      ∃ s₁, Turn p c fuel s s₁ ∧ s₁.run p c fuel = .ok s' := by
  unfold run at h
  split at h
  · rename_i i ready hr
    cases hf : s.tasks.find? (·.id = i) with
    | none =>
      simp only [hf] at h
      exact .inr ⟨_, .skip hr hf, h⟩
    | some t =>
      simp only [hf] at h
      obtain ⟨s₁, hp, h⟩ := except_bind_ok.mp h
      exact .inr ⟨s₁, .poll hr hf hp, h⟩
  · rename_i hr
    split at h
    · rename_i ht
      cases h
      exact .inl ⟨hr, ht, rfl⟩
    · rename_i time ht
      exact .inr ⟨_, .elapse hr ht, h⟩

theorem run_error {fuel : Nat} {s : Schedule σ} {e : World σ × Fault}
    (h : s.run p c (fuel + 1) = .error e) :
    (∃ i ready t, s.ready = i :: ready ∧ s.tasks.find? (·.id = i) = some t ∧
      advance p c fuel s.world t [] = .error e) ∨
    ∃ s₁, Turn p c fuel s s₁ ∧ s₁.run p c fuel = .error e := by
  unfold run at h
  split at h
  · rename_i i ready hr
    cases hf : s.tasks.find? (·.id = i) with
    | none =>
      simp only [hf] at h
      exact .inr ⟨_, .skip hr hf, h⟩
    | some t =>
      simp only [hf] at h
      cases hp : poll p c fuel { s with ready := ready } t with
      | error e' =>
        rw [hp] at h
        cases h
        have ha := poll_error hp
        exact .inl ⟨i, ready, t, hr, hf, ha⟩
      | ok s₁ =>
        rw [hp] at h
        exact .inr ⟨s₁, .poll hr hf hp, h⟩
  · rename_i hr
    split at h
    · cases h
    · rename_i time ht
      exact .inr ⟨_, .elapse hr ht, h⟩

end Schedule

namespace Traffic

open Schedule

variable {σ : Type} {p : Peer σ} {c : Setup}

theorem advance_reaches {fuel : Nat} {w w' : World σ} {t t' : Task} {woken woken' : List Nat}
    (h : advance p c fuel w t woken = .ok (w', t', woken')) {ts : List Task}
    (hs : Sound ⟨w, ts⟩) (ht : t ∈ ts) :
    Reaches p c ⟨w, ts⟩ ⟨w', put ts t'⟩ ∧ t'.id = t.id := by
  induction fuel generalizing w t woken ts with
  | zero =>
    cases h
    rw [put_self hs.distinct ht]
    exact ⟨.refl, rfl⟩
  | succ fuel ih =>
    unfold advance at h
    split at h
    · cases h
    · cases h
      rw [put_self hs.distinct ht]
      exact ⟨.refl, rfl⟩
    · rename_i w₁ t₁ hstep
      have hm := Task.step_move hstep
      have hfirst : Step p c ⟨w, ts⟩ ⟨w₁, put ts t₁⟩ := .move ht hstep
      obtain ⟨hr, hid⟩ := ih h (hs.step hfirst) (mem_put_self ht hm.id_eq)
      rw [put_put ts hid] at hr
      exact ⟨.head hfirst hr, hid.trans hm.id_eq⟩

theorem advance_reaches_fault {fuel : Nat} {w w' : World σ} {t : Task} {woken : List Nat}
    {fault : Fault} (h : advance p c fuel w t woken = .error (w', fault)) {ts : List Task}
    (hs : Sound ⟨w, ts⟩) (ht : t ∈ ts) :
    ∃ ts', Reaches p c ⟨w, ts⟩ ⟨w', ts'⟩ ∧ (∃ u ∈ ts', u.step p c w' = .error fault) ∧
      w'.tasks = w.tasks ∧ ts'.map (·.id) = ts.map (·.id) ∧ ts'.map (·.goal) = ts.map (·.goal) := by
  induction fuel generalizing w t woken ts with
  | zero => cases h
  | succ fuel ih =>
    unfold advance at h
    split at h
    · rename_i hstep
      cases h
      exact ⟨ts, .refl, ⟨t, ht, hstep⟩, rfl, rfl, rfl⟩
    · cases h
    · rename_i w₁ t₁ hstep
      have hm := Task.step_move hstep
      have hfirst : Step p c ⟨w, ts⟩ ⟨w₁, put ts t₁⟩ := .move ht hstep
      obtain ⟨ts', hr, hfault, htasks, hids, hgoals⟩ := ih h (hs.step hfirst) (mem_put_self ht hm.id_eq)
      exact ⟨ts', .head hfirst hr, hfault, htasks.trans hm.tasks_eq, hids.trans (ids_put ts t₁),
        hgoals.trans (map_put hs.distinct ht hm.id_eq hm.goal_eq)⟩

theorem commence_reaches (s : Schedule σ) (orders : List Order) (ts : List Task) :
    Reaches p c ⟨s.world, ts ++ s.tasks⟩
      ⟨(s.commence orders).world, ts ++ (s.commence orders).tasks⟩ := by
  induction orders generalizing s with
  | nil => exact .refl
  | cons o orders ih =>
    rw [commence_cons]
    split
    · have hb : Step p c ⟨s.world, ts ++ s.tasks⟩ ⟨(s.join o).world, ts ++ (s.join o).tasks⟩ := by
        have := Step.begin (p := p) (c := c) s.world (ts ++ s.tasks) o.goal o.deadline
        rwa [List.append_assoc] at this
      exact .head hb (ih (s.join o))
    · exact .refl

theorem checkDeadline_reaches {w w' : World σ} {t t' : Task} {freed : List Nat} {ts : List Task}
    (h : checkDeadline w t = (w', t', freed)) (hs : Sound ⟨w, ts⟩) (ht : t ∈ ts) :
    Reaches p c ⟨w, ts⟩ ⟨w', put ts t'⟩ ∧ t'.id = t.id := by
  unfold checkDeadline at h
  split at h
  · rename_i hd
    cases h
    exact ⟨.single (.expire ht (Option.isNone_iff_eq_none.mp hd.1) hd.2), rfl⟩
  · cases h
    rw [put_self hs.distinct ht]
    exact ⟨.refl, rfl⟩

theorem poll_reaches {fuel : Nat} {s s' : Schedule σ} {t : Task} {ts : List Task}
    (h : s.poll p c fuel t = .ok s') (hs : Sound ⟨s.world, ts ++ s.tasks⟩) (ht : t ∈ s.tasks) :
    Reaches p c ⟨s.world, ts ++ s.tasks⟩ ⟨s'.world, ts ++ s'.tasks⟩ := by
  obtain ⟨w₁, t₁, woken, w₂, t₂, freed, ha, hc, rfl⟩ := poll_ok h
  have hmem : t ∈ ts ++ s.tasks := List.mem_append_right _ ht
  obtain ⟨hr₁, hid₁⟩ := advance_reaches ha hs hmem
  obtain ⟨hr₂, hid₂⟩ := checkDeadline_reaches (p := p) (c := c) hc (hs.reaches hr₁)
    (mem_put_self hmem hid₁)
  have hnot : t₂.id ∉ ts.map (·.id) := by
    rw [hid₂, hid₁]
    have := hs.distinct
    rw [List.map_append, List.nodup_append'] at this
    exact fun hin => this.2.2 hin (List.mem_map_of_mem ht)
  rw [put_put _ hid₂, put_append_of_notMem hnot] at hr₂
  exact (hr₁.trans hr₂).trans
    (commence_reaches (s.settle w₂ t₂ (woken ++ freed)) s.orders ts)

theorem elapse_reaches (s : Schedule σ) (time : Instant) (ts : List Task) :
    Reaches p c ⟨s.world, ts ++ s.tasks⟩ ⟨(s.elapse time).world, ts ++ (s.elapse time).tasks⟩ := by
  refine .single (.elapse ?_)
  split
  · rename_i h
    exact h
  · exact Nat.le_refl _

theorem turn_reaches {fuel : Nat} {s s' : Schedule σ} {ts : List Task} (h : Turn p c fuel s s')
    (hs : Sound ⟨s.world, ts ++ s.tasks⟩) :
    Reaches p c ⟨s.world, ts ++ s.tasks⟩ ⟨s'.world, ts ++ s'.tasks⟩ := by
  cases h with
  | skip hr hf => exact .refl
  | poll hr hf hp =>
    have hpoll := poll_reaches hp hs (List.mem_of_find?_eq_some hf)
    exact hpoll
  | elapse hr ht => exact elapse_reaches s _ ts

theorem run_reaches {fuel : Nat} {s s' : Schedule σ} {ts : List Task}
    (h : s.run p c fuel = .ok s') (hs : Sound ⟨s.world, ts ++ s.tasks⟩) :
    Reaches p c ⟨s.world, ts ++ s.tasks⟩ ⟨s'.world, ts ++ s'.tasks⟩ := by
  induction fuel generalizing s with
  | zero =>
    cases h
    exact .refl
  | succ fuel ih =>
    rcases run_ok h with ⟨-, -, rfl⟩ | ⟨s₁, hturn, h⟩
    · exact .refl
    · have hr := turn_reaches hturn hs
      exact hr.trans (ih h (hs.reaches hr))

theorem ofOrders_reaches {fuel window : Nat} {w : World σ} {orders : List Order} {s : Schedule σ}
    (h : (Schedule.ofOrders w window orders).run p c fuel = .ok s) :
    Reaches p c ⟨w, []⟩ ⟨s.world, s.tasks⟩ := by
  have hbegun := commence_reaches (p := p) (c := c) ⟨w, [], [], [], [], max window 1⟩ orders []
  rw [← List.nil_append s.tasks]
  exact hbegun.trans (run_reaches h ((Sound.start w).reaches hbegun))

/-- What is read off a run is true of a state that is reached. -/
theorem reaches_of_read {α : Type} {fuel window : Nat} {w : World σ} {orders : List Order}
    {f : Schedule σ → α} {y : α}
    (h : ((Schedule.ofOrders w window orders).run p c fuel).toOption.map f = some y) :
    ∃ s : Schedule σ, Reaches p c ⟨w, []⟩ ⟨s.world, s.tasks⟩ ∧ f s = y := by
  cases hs : (Schedule.ofOrders w window orders).run p c fuel with
  | error fault =>
    rw [hs] at h
    cases h
  | ok s =>
    rw [hs] at h
    cases h
    exact ⟨s, ofOrders_reaches hs, rfl⟩

theorem entry_at {α : Type} {journal : List Entry} {n : Nat} {f : Entry → Option α} {y : α}
    (h : (journal[n]?).bind f = some y) :
    ∃ e, f e = some y ∧ journal = journal.take n ++ e :: journal.drop (n + 1) := by
  obtain ⟨e, he, hf⟩ := Option.bind_eq_some_iff.mp h
  obtain ⟨hlt, he⟩ := List.getElem?_eq_some_iff.mp he
  refine ⟨e, hf, ?_⟩
  rw [← he, ← List.drop_eq_getElem_cons hlt, List.take_append_drop]

end Traffic

/-- A client without deadlines whose tokens last until they expire. -/
def Setup.plain (maxRetries : Nat) : Setup where
  base := ⟨"https", "", none, some (.domain "pim.example.com"), none, .segments [], none, none⟩
  policy := ⟨maxRetries, ⟨.ofMillis 1, .ofMillis 1, .none, by decide, by decide⟩, false⟩
  timeout := .ofSeconds 1
  deadline := none
  grant := .clientCredentials
  buffer := .zero

end CatalogClient
