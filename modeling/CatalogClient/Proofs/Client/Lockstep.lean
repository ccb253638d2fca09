import CatalogClient.Proofs.Client.Answers
import CatalogClient.Proofs.Pipeline.Alike
/-!
Two schedules of the same orders, with services that differ in nothing but the bodies of some successes.
They take turn for turn the same way, so that their answers are the same but for the bodies.
-/

namespace CatalogClient

variable {σ : Type} {P : Request → Prop} {R : Request → List UInt8 → List UInt8 → Prop}

namespace Task.Alike

variable {t t' : Task}

theorem id_eq (h : t.Alike P R t') : t'.id = t.id := by
  obtain ⟨-, stage, rfl, -⟩ := h
  rfl

theorem resetTimers_eq (h : t.Alike P R t') (timers : List Timer) :
    Schedule.resetTimers timers t' = Schedule.resetTimers timers t := by
  obtain ⟨-, stage, rfl, hstage⟩ := h
  simp only [Schedule.resetTimers, hstage.wake?_eq, hstage.outcome?_isSome]

theorem outcome?_isSome (h : t.Alike P R t') :
    t'.stage.outcome?.isSome = t.stage.outcome?.isSome := by
  obtain ⟨-, stage, rfl, hstage⟩ := h
  exact hstage.outcome?_isSome

end Task.Alike

theorem World.Alike.refl (w : World σ) : w.Alike w := ⟨w.journal, rfl⟩

namespace Schedule

/-- Results of parts of two runs: faults of the same kind, or values that are alike. -/
inductive ResultAlike {α : Type} (A : α → α → Prop) :
    Except (World σ × Fault) α → Except (World σ × Fault) α → Prop
  | error {w w' : World σ} (fault : Fault) : ResultAlike A (.error (w, fault)) (.error (w', fault))
  | ok {x y : α} (h : A x y) : ResultAlike A (.ok x) (.ok y)

theorem ResultAlike.bind {α β : Type} {A : α → α → Prop} {B : β → β → Prop}
    {x y : Except (World σ × Fault) α} {f g : α → Except (World σ × Fault) β}
    (h : ResultAlike A x y) (hf : ∀ a b, A a b → ResultAlike B (f a) (g b)) :
    ResultAlike B (x >>= f) (y >>= g) := by
  cases h with
  | error fault => exact .error fault
  | ok h => exact hf _ _ h

structure Alike (P : Request → Prop) (R : Request → List UInt8 → List UInt8 → Prop)
    (s s' : Schedule σ) : Prop where
  world : s.world.Alike s'.world
  tasks : List.Forall₂ (Task.Alike P R) s.tasks s'.tasks
  ready : s'.ready = s.ready
  timers : s'.timers = s.timers
  orders : s'.orders = s.orders
  window : s'.window = s.window
  counts : ∀ o ∈ s.orders, o.goal.Counts P

/-- A task after some of its steps, with the world and the tasks woken. -/
def PaceAlike (P : Request → Prop) (R : Request → List UInt8 → List UInt8 → Prop)
    (x y : World σ × Task × List Nat) : Prop :=
  x.1.Alike y.1 ∧ x.2.1.Alike P R y.2.1 ∧ y.2.2 = x.2.2

variable {p : Peer σ} {send : Attempt → σ → Reply Response × σ} {c : Setup} {w w' : World σ}
  {t t' : Task} {s s' : Schedule σ}

theorem passedOn_alike {w₁ w₁' : World σ} (hw : w.Alike w') (hw₁ : w₁.Alike w₁')
    (ht : t.Alike P R t') :
    passedOn w'.turnstile w₁'.turnstile t'.id = passedOn w.turnstile w₁.turnstile t.id := by
  obtain ⟨j, rfl⟩ := hw
  obtain ⟨j', rfl⟩ := hw₁
  rw [ht.id_eq]

theorem advance_alike (hp : p.Twin send c P R) (fuel : Nat) (hw : w.Alike w') (ht : t.Alike P R t')
    (woken : List Nat) : ResultAlike (PaceAlike P R) (advance p c fuel w t woken)
      (advance (p.withSend send) c fuel w' t' woken) := by
  induction fuel generalizing w w' t t' woken with
  | zero => exact .ok ⟨hw, ht, rfl⟩
  | succ fuel ih =>
    have hstep := Task.step_alike hp hw ht
    unfold advance
    generalize t.step p c w = x at hstep ⊢
    generalize t'.step (p.withSend send) c w' = y at hstep ⊢
    cases hstep with
    | error fault => exact .error fault
    | wait => exact .ok ⟨hw, ht, rfl⟩
    | move hw₁ ht₁ =>
      simp only [passedOn_alike hw hw₁ ht]
      exact ih hw₁ ht₁ _

theorem checkDeadline_alike (hw : w.Alike w') (ht : t.Alike P R t') :
    PaceAlike P R (checkDeadline w t) (checkDeadline w' t') := by
  have hdone := ht.outcome?_isSome
  obtain ⟨hcounts, stage, rfl, hstage⟩ := ht
  obtain ⟨j, rfl⟩ := hw
  unfold checkDeadline
  simp only [← Option.not_isSome, hdone]
  split
  · exact ⟨⟨_, rfl⟩, ⟨hcounts, _, rfl, .same _⟩, rfl⟩
  · exact ⟨⟨_, rfl⟩, ⟨hcounts, _, rfl, hstage⟩, rfl⟩

theorem underWay_alike {ts ts' : List Task} (h : List.Forall₂ (Task.Alike P R) ts ts') :
    underWay ts' = underWay ts := by
  induction h with
  | nil => rfl
  | @cons t t' ts ts' ht hts ih =>
    simp only [underWay, List.dropWhile_cons, ht.outcome?_isSome] at ih ⊢
    split
    · exact ih
    · rw [List.length_cons, List.length_cons, hts.length_eq]

theorem find?_alike {ts ts' : List Task} (h : List.Forall₂ (Task.Alike P R) ts ts') (i : Nat) :
    (ts.find? (·.id = i) = none ∧ ts'.find? (·.id = i) = none) ∨
      ∃ t t', ts.find? (·.id = i) = some t ∧ ts'.find? (·.id = i) = some t' ∧ t.Alike P R t' := by
  induction h with
  | nil => exact .inl ⟨rfl, rfl⟩
  | @cons t t' ts ts' ht hts ih =>
    simp only [List.find?_cons, ht.id_eq]
    by_cases hi : t.id = i
    · simp only [hi, decide_true]
      exact .inr ⟨t, t', rfl, rfl, ht⟩
    · simp only [hi, decide_false]
      exact ih

theorem put_alike {ts ts' : List Task} (h : List.Forall₂ (Task.Alike P R) ts ts')
    (ht : t.Alike P R t') :
    List.Forall₂ (Task.Alike P R) (Traffic.put ts t) (Traffic.put ts' t') := by
  refine List.rel_map ?_ h
  intro u u' hu
  simp only [hu.id_eq, ht.id_eq]
  split
  · exact ht
  · exact hu

theorem join_alike (h : s.Alike P R s') {o : Order} (ho : o.goal.Counts P) :
    (s.join o).Alike P R (s'.join o) := by
  obtain ⟨⟨j, hw⟩, htasks, hready, htimers, horders, hwindow, hcounts⟩ := h
  refine ⟨⟨j, ?_⟩, ?_, ?_, htimers, horders, hwindow, hcounts⟩
  · simp only [join, hw]
  · refine List.rel_append htasks (.cons ?_ .nil)
    simp only [hw]
    exact .refl ho
  · simp only [join, hw, hready]

theorem commence_alike (h : s.Alike P R s') {orders : List Order}
    (ho : ∀ o ∈ orders, o.goal.Counts P) :
    (s.commence orders).Alike P R (s'.commence orders) := by
  induction orders generalizing s s' with
  | nil => exact ⟨h.world, h.tasks, h.ready, h.timers, rfl, h.window, ho⟩
  | cons o orders ih =>
    have hrest : ∀ o ∈ orders, o.goal.Counts P := fun o' ho' => ho o' (List.mem_cons_of_mem _ ho')
    rw [commence_cons, commence_cons, underWay_alike h.tasks]
    by_cases hroom : underWay s.tasks < s.window
    · rw [if_pos hroom, if_pos (h.window.symm ▸ hroom)]
      exact ih (join_alike h (ho o List.mem_cons_self)) hrest
    · rw [if_neg hroom, if_neg (h.window.symm ▸ hroom)]
      exact ⟨h.world, h.tasks, h.ready, h.timers, rfl, h.window, ho⟩

/-- The schedule after the steps of one task. -/
def polled (s : Schedule σ) (x : World σ × Task × List Nat) : Schedule σ :=
  (s.settle (checkDeadline x.1 x.2.1).1 (checkDeadline x.1 x.2.1).2.1
    (x.2.2 ++ (checkDeadline x.1 x.2.1).2.2)).commence s.orders

theorem poll_eq (fuel : Nat) (s : Schedule σ) (t : Task) :
    s.poll p c fuel t = advance p c fuel s.world t [] >>= fun x => .ok (s.polled x) := rfl

theorem polled_alike (h : s.Alike P R s') {x y : World σ × Task × List Nat}
    (hx : PaceAlike P R x y) : (s.polled x).Alike P R (s'.polled y) := by
  obtain ⟨hw, ht, hwoken⟩ := hx
  obtain ⟨hw₁, ht₁, hfreed⟩ := checkDeadline_alike hw ht
  have hsettled : Alike P R (s.settle (checkDeadline x.1 x.2.1).1 (checkDeadline x.1 x.2.1).2.1
      (x.2.2 ++ (checkDeadline x.1 x.2.1).2.2)) (s'.settle (checkDeadline y.1 y.2.1).1
      (checkDeadline y.1 y.2.1).2.1 (y.2.2 ++ (checkDeadline y.1 y.2.1).2.2)) := by
    refine ⟨hw₁, put_alike h.tasks ht₁, ?_, ?_, h.orders, h.window, h.counts⟩
    · simp only [settle, h.ready, hwoken, hfreed]
    · simp only [settle, h.timers, ht₁.resetTimers_eq]
  unfold polled
  rw [h.orders]
  exact commence_alike hsettled h.counts

theorem poll_alike (hp : p.Twin send c P R) (fuel : Nat) (h : s.Alike P R s')
    (ht : t.Alike P R t') :
    ResultAlike (Alike P R) (s.poll p c fuel t) (s'.poll (p.withSend send) c fuel t') := by
  rw [poll_eq, poll_eq]
  exact (advance_alike hp fuel h.world ht []).bind fun _ _ hx => .ok (polled_alike h hx)

theorem elapse_alike (h : s.Alike P R s') (time : Instant) :
    (s.elapse time).Alike P R (s'.elapse time) := by
  obtain ⟨⟨j, hw⟩, htasks, hready, htimers, horders, hwindow, hcounts⟩ := h
  refine ⟨⟨j, ?_⟩, htasks, ?_, ?_, horders, hwindow, hcounts⟩
  · simp only [elapse, hw]
  · simp only [elapse, hready, htimers]
  · simp only [elapse, htimers]

theorem run_alike (hp : p.Twin send c P R) (fuel : Nat) (h : s.Alike P R s') :
    ResultAlike (Alike P R) (s.run p c fuel) (s'.run (p.withSend send) c fuel) := by
  induction fuel generalizing s s' with
  | zero => exact .ok h
  | succ fuel ih =>
    unfold run
    rw [h.ready]
    cases hr : s.ready with
    | cons i ready =>
      have hpopped : Alike P R { s with ready := ready } { s' with ready := ready } :=
        ⟨h.world, h.tasks, rfl, h.timers, h.orders, h.window, h.counts⟩
      rcases find?_alike h.tasks i with ⟨hf, hf'⟩ | ⟨t, t', hf, hf', ht⟩
      · simp only [hf, hf']
        exact ih hpopped
      · simp only [hf, hf']
        exact (poll_alike hp fuel hpopped ht).bind fun _ _ => ih
    | nil =>
      simp only [h.timers]
      cases nextTime? s.timers with
      | none => exact .ok h
      | some time => exact ih (elapse_alike h time)

end Schedule

namespace Client

variable {k : Client} {p : Peer σ} {send : Attempt → σ → Reply Response × σ} {w : World σ}
  {window : Nat} {orders : List Order}

/-- The answers to one order in two runs. -/
def OrderAlike (R : Request → List UInt8 → List UInt8 → Prop) (o : Order)
    (answer answer' : Except Failure Response) : Prop :=
  answer' = answer ∨ ∃ r url, o.goal = .call r url ∧ SameAnswer (R r) answer answer'

theorem orderAlike_of_task {t t' : Task} {o : Order} {answer answer' : Except Failure Response}
    (h : t.Alike P R t') (hg : t.goal = o.goal) (hs : t.stage = .done (.answer answer))
    (hs' : t'.stage = .done (.answer answer')) : OrderAlike R o answer answer' := by
  obtain ⟨-, stage, rfl, hstage⟩ := h
  cases hs'
  rw [hs] at hstage
  cases hstage with
  | same => exact .inl rfl
  | done hgoal hsame => exact .inr ⟨_, _, hg.symm.trans hgoal, hsame⟩

/-- What two clients come to with the same orders: the same fault, or answers that are the same but for
the bodies. -/
theorem answersTo_alike (hp : p.Twin send k.setup P R) (hw : w.Idle) (window : Nat)
    (hcounts : ∀ o ∈ orders, o.goal.Counts P) (hcall : ∀ o ∈ orders, o.IsCall) :
    (∃ fault, (k.answersTo p window orders w).1 = .error fault ∧
        (k.answersTo (p.withSend send) window orders w).1 = .error fault) ∨
      ∃ answers answers', (k.answersTo p window orders w).1 = .ok answers ∧
        (k.answersTo (p.withSend send) window orders w).1 = .ok answers' ∧
        answers'.length = answers.length ∧ ∀ (j : Nat) o answer answer', orders[j]? = some o →
          answers[j]? = some answer → answers'[j]? = some answer' → OrderAlike R o answer answer' := by
  have hstart : (Schedule.ofOrders w window orders).Alike P R (Schedule.ofOrders w window orders) :=
    Schedule.commence_alike ⟨.refl w, .nil, rfl, rfl, rfl, rfl, by simp⟩ hcounts
  have halike := Schedule.run_alike (c := k.setup) hp
    (Schedule.enough k.setup.policy.maxRetries orders.length) hstart
  generalize hrun : (Schedule.ofOrders w window orders).run p k.setup
    (Schedule.enough k.setup.policy.maxRetries orders.length) = x at halike
  generalize hrun' : (Schedule.ofOrders w window orders).run (p.withSend send) k.setup
    (Schedule.enough k.setup.policy.maxRetries orders.length) = y at halike
  cases halike with
  | error fault =>
    exact .inl ⟨fault, by rw [answersTo_of_fault hrun], by rw [answersTo_of_fault hrun']⟩
  | ok halike =>
    have hstages := stages_of_run hw hcall hrun
    have hstages' := stages_of_run hw hcall hrun'
    obtain ⟨hgoals, -⟩ := World.run_done hw hrun
    refine .inr ⟨_, _, by rw [answersTo_of_run hrun], by rw [answersTo_of_run hrun'], ?_, ?_⟩
    · have hlen := congrArg List.length hstages
      have hlen' := congrArg List.length hstages'
      simp only [List.length_map] at hlen hlen'
      rw [← hlen, ← hlen', halike.tasks.length_eq]
    · intro j o answer answer' ho ha ha'
      have hgoal := congrArg (·[j]?) hgoals
      have hstage := congrArg (·[j]?) hstages
      have hstage' := congrArg (·[j]?) hstages'
      simp only [List.getElem?_map, ho, ha, ha', Option.map_some] at hgoal hstage hstage'
      obtain ⟨t, ht, hgoal⟩ := Option.map_eq_some_iff.mp hgoal
      obtain ⟨t', ht', hstage'⟩ := Option.map_eq_some_iff.mp hstage'
      rw [ht] at hstage
      obtain ⟨hj, rfl⟩ := List.getElem?_eq_some_iff.mp ht
      obtain ⟨hj', rfl⟩ := List.getElem?_eq_some_iff.mp ht'
      exact orderAlike_of_task (halike.tasks.get hj hj') hgoal (Option.some.inj hstage) hstage'

end Client

end CatalogClient
