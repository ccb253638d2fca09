import CatalogClient.Client
import CatalogClient.Proofs.Pipeline.Completion
import CatalogClient.Proofs.Pipeline.Tries
/-!
The answers to the calls of a client: one for each, in their order.
-/

namespace CatalogClient

namespace Effect

variable {σ α β : Type}

theorem bind_apply (x : Effect σ α) (f : α → Effect σ β) (w : World σ) :
    (x >>= f) w = match x w with
      | (.ok a, w₁) => f a w₁
      | (.error fault, w₁) => (.error fault, w₁) := by
  change (StateT.bind x (ExceptT.bindCont f) : StateT (World σ) Id _) w = _
  simp only [StateT.bind]
  rcases x w with ⟨a | a, w₁⟩ <;> rfl

theorem bind_ok {x : Effect σ α} {f : α → Effect σ β} {w w' : World σ} {b : β} :
    (x >>= f) w = (.ok b, w') ↔ ∃ a w₁, x w = (.ok a, w₁) ∧ f a w₁ = (.ok b, w') := by
  rw [bind_apply]
  rcases x w with ⟨fault | a, w₁⟩
  · refine ⟨fun h => (by cases h), ?_⟩
    rintro ⟨a, w₂, h, -⟩
    cases h
  · refine ⟨fun h => ⟨a, w₁, rfl, h⟩, ?_⟩
    rintro ⟨a', w₂, h, hf⟩
    cases h
    exact hf

theorem bind_error {x : Effect σ α} {f : α → Effect σ β} {w w' : World σ} {fault : Fault}
    (h : (x >>= f) w = (.error fault, w')) :
    x w = (.error fault, w') ∨ ∃ a w₁, x w = (.ok a, w₁) ∧ f a w₁ = (.error fault, w') := by
  rw [bind_apply] at h
  rcases hx : x w with ⟨fault' | a, w₁⟩
  · rw [hx] at h
    cases h
    exact .inl rfl
  · rw [hx] at h
    exact .inr ⟨a, w₁, rfl, h⟩

theorem pure_ok {a b : α} {w w' : World σ} :
    (pure a : Effect σ α) w = (.ok b, w') ↔ a = b ∧ w = w' := by
  change ((Except.ok a, w) : Except Fault α × World σ) = _ ↔ _
  simp

theorem perform_eq {p : Peer σ} {c : Setup} {window : Nat} {orders : List Order} {w w' : World σ}
    {result : Except Fault (List Outcome)} (h : Effect.perform p c window orders w = (result, w')) :
    w.perform p c window orders = (w', result) := by
  simp only [Effect.perform] at h
  cases h
  rfl

end Effect

namespace Traffic

variable {σ : Type} {p : Peer σ} {c : Setup}

/-- What a call comes to is an answer. -/
structure Answering (t : Task) : Prop where
  call : ∀ r url, t.goal = .call r url → ∀ o, t.stage = .done o → ∃ result, o = .answer result
  stray : ∀ f, t.goal = .stray f → t.stage = .asking ∨ ∃ f', t.stage = .done (.answer (.error f'))

theorem Answering.move {w w' : World σ} {t t' : Task} (h : Answering t) (hm : t.Move p c w w' t') :
    Answering t' := by
  refine ⟨?_, ?_⟩
  · intro r url hg o hs
    rw [hm.goal_eq] at hg
    cases hm.tries hg with
    | quiet hj hn hn' hd =>
      obtain ⟨f, rfl⟩ := hd o hs
      exact ⟨_, rfl⟩
    | sends hj hn hs' ha =>
      obtain ⟨_, _, _, _, hst⟩ := hs'
      rw [hs] at hst
      cases hst
    | hears hj hn hs' hd =>
      rcases hd with ⟨a, -, -, hst⟩ | ⟨f, -, hst | ⟨hst, -⟩⟩
      · rw [hs] at hst
        cases hst
        exact ⟨_, rfl⟩
      · rw [hs] at hst
        cases hst
        exact ⟨_, rfl⟩
      · rw [hs] at hst
        cases hst
  · intro f hg
    rw [hm.goal_eq] at hg
    have hstage : t.stage = .asking := by
      rcases h.stray f hg with hs | ⟨result, hs⟩
      · exact hs
      · have hu := hm.undone
        rw [hs] at hu
        cases hu
    cases hm with
    | stray hs hg' => exact .inr ⟨_, rfl⟩
    | refused ha _ | granted ha _ =>
      rcases ha with ⟨-, hno⟩ | ⟨wake, -, hs | hs⟩
      · exact absurd hg (hno f)
      · rw [hstage] at hs
        cases hs
      · rw [hstage] at hs
        cases hs
    | exchange he => rcases he with hs | ⟨wake, -, hs⟩ <;> rw [hstage] at hs <;> cases hs
    | idle hs _ =>
      rcases hs with hs | ⟨_, _, _, _, hs⟩ <;> rw [hstage] at hs <;> cases hs
    | _ => simp_all

theorem answering_kept : Kept p c (fun _ => True) (fun _ => Answering) := by
  refine Kept.ofTask ?_ ?_ ?_
  · intro w goal deadline
    refine ⟨?_, ?_⟩
    · rintro r url hg o hs
      cases hg
      cases hs
    · rintro f hg
      cases hg
      exact .inl rfl
  · exact fun w t w' t' h hm => h.move hm
  · intro w t _ _ _
    exact ⟨fun _ _ _ o hs => ⟨_, (Stage.done.inj hs).symm⟩, fun _ _ => .inr ⟨_, rfl⟩⟩

end Traffic

/-- An order for a call, which may lead nowhere. -/
def Order.IsCall (o : Order) : Prop := (∃ r url, o.goal = .call r url) ∨ ∃ f, o.goal = .stray f

theorem Request.url_error {r : Request} {base : Url} {f : Failure} (h : r.url base = .error f) :
    f.status? = none := by
  unfold Request.url at h
  generalize (if r.isAbsolute then Url.read r.path else base.below r.path) = result at h
  cases result with
  | error fault =>
    cases h
    rfl
  | ok url => cases h

/-- An order for a call. One that leads nowhere fails without a status. -/
structure Order.ForCall (o : Order) : Prop where
  isCall : o.IsCall
  stray : ∀ f, o.goal = .stray f → f.status? = none

theorem Client.order_forCall (k : Client) (r : Request) : (k.order r).ForCall := by
  cases hurl : r.url k.setup.base with
  | ok url =>
    have hgoal : (k.order r).goal = .call r url := by simp [Client.order, Goal.ofRequest, hurl]
    exact ⟨.inl ⟨r, url, hgoal⟩, fun f hf => by rw [hgoal] at hf; cases hf⟩
  | error f =>
    have hgoal : (k.order r).goal = .stray f := by simp [Client.order, Goal.ofRequest, hurl]
    refine ⟨.inr ⟨f, hgoal⟩, ?_⟩
    intro f' hf
    rw [hgoal] at hf
    cases hf
    exact Request.url_error hurl

theorem Client.request_of_order {k : Client} {r r' : Request} {url : Url}
    (h : (k.order r).goal = .call r' url) : r' = r := by
  cases hurl : r.url k.setup.base with
  | ok url' =>
    simp only [Client.order, Goal.ofRequest, hurl] at h
    cases h
    rfl
  | error f =>
    simp only [Client.order, Goal.ofRequest, hurl] at h
    cases h

theorem stages_of_outcomes {ts : List Task} {outcomes : List Outcome}
    (h : ts.map (·.stage.outcome?) = outcomes.map some)
    (ha : ∀ t ∈ ts, ∀ o, t.stage = .done o → ∃ result, o = .answer result) :
    ts.map (·.stage) = (outcomes.filterMap (·.answer?)).map fun result => .done (.answer result) := by
  induction ts generalizing outcomes with
  | nil =>
    cases List.map_eq_nil_iff.mp h.symm
    rfl
  | cons t ts ih =>
    cases outcomes with
    | nil => cases h
    | cons o outcomes =>
      obtain ⟨ho, hrest⟩ := List.cons.inj h
      have hs : t.stage = .done o := by
        cases hst : t.stage <;> simp_all [Stage.outcome?]
      obtain ⟨result, rfl⟩ := ha t List.mem_cons_self o hs
      rw [List.map_cons, hs, ih hrest fun u hu => ha u (List.mem_cons_of_mem _ hu)]
      rfl

namespace Client

variable {σ : Type} {k : Client} {p : Peer σ} {w w' : World σ} {window : Nat} {orders : List Order}

theorem answersTo_of_run {s : Schedule σ} (hrun : (Schedule.ofOrders w window orders).run p k.setup
      (Schedule.enough k.setup.policy.maxRetries orders.length) = .ok s) :
    k.answersTo p window orders w =
      (.ok ((s.tasks.filterMap (·.stage.outcome?)).filterMap (·.answer?)), s.world) := by
  refine Effect.bind_ok.mpr ⟨s.tasks.filterMap (·.stage.outcome?), s.world, ?_, rfl⟩
  simp only [Effect.perform, World.perform, hrun]

theorem answersTo_of_fault {w₁ : World σ} {fault : Fault}
    (hrun : (Schedule.ofOrders w window orders).run p k.setup
      (Schedule.enough k.setup.policy.maxRetries orders.length) = .error (w₁, fault)) :
    k.answersTo p window orders w = (.error fault, { w₁ with turnstile := .free }) := by
  rw [answersTo, Effect.bind_apply]
  simp only [Effect.perform, World.perform, hrun]

theorem stages_of_run {s : Schedule σ} (hw : w.Idle) (ho : ∀ o ∈ orders, o.IsCall)
    (hrun : (Schedule.ofOrders w window orders).run p k.setup
      (Schedule.enough k.setup.policy.maxRetries orders.length) = .ok s) :
    s.tasks.map (·.stage) = ((s.tasks.filterMap (·.stage.outcome?)).filterMap (·.answer?)).map
      fun result => .done (.answer result) := by
  obtain ⟨hgoals, -, -, hdone, -⟩ := World.run_done hw hrun
  obtain ⟨-, hanswering⟩ :=
    Traffic.answering_kept.reaches (Traffic.ofOrders_reaches hrun) trivial (by simp)
  refine stages_of_outcomes (Schedule.map_outcome?_of_done hdone) ?_
  intro t ht o hs
  have hgoal : t.goal ∈ orders.map (·.goal) := hgoals ▸ List.mem_map_of_mem ht
  obtain ⟨order, horder, hg⟩ := List.mem_map.mp hgoal
  rcases ho order horder with ⟨r, url, hcall⟩ | ⟨f, hstray⟩
  · exact (hanswering t ht).call r url (hg.symm.trans hcall) o hs
  · rcases (hanswering t ht).stray f (hg.symm.trans hstray) with hasking | ⟨f', hfailed⟩
    · rw [hs] at hasking
      cases hasking
    · rw [hs] at hfailed
      cases hfailed
      exact ⟨_, rfl⟩

theorem answersTo_ok {answers : List (Except Failure Response)} (hw : w.Idle)
    (ho : ∀ o ∈ orders, o.IsCall) (h : k.answersTo p window orders w = (.ok answers, w')) :
    ∃ ts, Traffic.Reaches p k.setup ⟨w, []⟩ ⟨w', ts⟩ ∧ ts.map (·.goal) = orders.map (·.goal) ∧
      ts.map (·.id) = List.range' w.tasks orders.length ∧
      ts.map (·.stage) = (answers.map fun result => .done (.answer result)) ∧
      ts.map (·.deadline.isSome) = orders.map (·.deadline.isSome) ∧
      w'.tasks = w.tasks + orders.length := by
  cases hrun : (Schedule.ofOrders w window orders).run p k.setup
      (Schedule.enough k.setup.policy.maxRetries orders.length) with
  | error e =>
    rw [answersTo_of_fault hrun] at h
    cases h
  | ok s =>
    rw [answersTo_of_run hrun] at h
    cases h
    obtain ⟨hgoals, hlimits, hids, -, hcount, -⟩ := World.run_done hw hrun
    exact ⟨s.tasks, Traffic.ofOrders_reaches hrun, hgoals, hids, stages_of_run hw ho hrun, hlimits,
      hcount⟩

end Client

end CatalogClient
