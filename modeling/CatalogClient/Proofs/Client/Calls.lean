import CatalogClient.Proofs.Client.Answers
import CatalogClient.Proofs.Pipeline.Faults
/-!
The logical calls of an operation: each is a task of its own, and nothing is sent but their attempts.
-/

namespace CatalogClient

namespace Journal

theorem attempts_hear (result : Except Failure Response) (tries : List Try) :
    (hear result tries).map (·.attempt) = tries.map (·.attempt) := by
  cases tries with
  | nil => rfl
  | cons x tries =>
    obtain ⟨a, result'⟩ := x
    cases result' <;> rfl

theorem mem_tries_of_sent {i : Nat} {time : Instant} {a : Attempt} {journal : List Entry}
    (h : ⟨time, .sent i a⟩ ∈ journal) : a ∈ (tries i journal).map (·.attempt) := by
  induction journal with
  | nil => cases h
  | cons e journal ih =>
    rcases List.mem_cons.mp h with rfl | h
    · simp [tries]
    · have hrest := ih h
      obtain ⟨time', event⟩ := e
      cases event with
      | sent j b =>
        simp only [tries]
        split
        · exact List.mem_cons_of_mem _ hrest
        · exact hrest
      | answered j result =>
        simp only [tries]
        split
        · rw [attempts_hear]
          exact hrest
        · exact hrest
      | _ => exact hrest

theorem sent_of_mem_tries {i : Nat} {x : Try} {journal : List Entry} (h : x ∈ tries i journal) :
    ∃ time, ⟨time, .sent i x.attempt⟩ ∈ journal := by
  have hattempt : x.attempt ∈ (tries i journal).map (·.attempt) := List.mem_map_of_mem h
  clear h
  induction journal with
  | nil => cases hattempt
  | cons e journal ih =>
    suffices h : e.event = .sent i x.attempt ∨ x.attempt ∈ (tries i journal).map (·.attempt) by
      obtain h | h := h
      · exact ⟨e.time, h ▸ List.mem_cons_self⟩
      · obtain ⟨time, hmem⟩ := ih h
        exact ⟨time, List.mem_cons_of_mem _ hmem⟩
    obtain ⟨time, event⟩ := e
    cases event with
    | sent j a =>
      simp only [tries] at hattempt
      split at hattempt
      · rename_i hj
        obtain h | h := List.mem_cons.mp hattempt
        · exact .inl (by rw [h, hj])
        · exact .inr h
      · exact .inr hattempt
    | answered j result =>
      simp only [tries] at hattempt
      split at hattempt
      · exact .inr (attempts_hear result _ ▸ hattempt)
      · exact .inr hattempt
    | _ => exact .inr hattempt

end Journal

namespace World

variable {σ : Type}

/-- The second state comes after the first: the journal has gained entries of later tasks only. -/
structure Precedes (w w' : World σ) : Prop where
  begun : w.tasks ≤ w'.tasks
  journal : ∃ news, w'.journal = news ++ w.journal ∧
    ∀ e ∈ news, ∀ i, e.event.task? = some i → w.tasks ≤ i

theorem Precedes.refl (w : World σ) : w.Precedes w := ⟨Nat.le_refl _, [], rfl, by simp⟩

theorem Precedes.extend {w v v' : World σ} (h : w.Precedes v) (hn : v.tasks ≤ v'.tasks)
    {es : List Entry} (hj : v'.journal = es ++ v.journal)
    (he : ∀ e ∈ es, ∀ i, e.event.task? = some i → w.tasks ≤ i) : w.Precedes v' := by
  obtain ⟨hbegun, news, hnews, hlater⟩ := h
  refine ⟨Nat.le_trans hbegun hn, es ++ news, ?_, ?_⟩
  · rw [hj, hnews, List.append_assoc]
  · intro e hmem
    rcases List.mem_append.mp hmem with hmem | hmem
    · exact he e hmem
    · exact hlater e hmem

theorem Precedes.entry {w v v' : World σ} (h : w.Precedes v) (hn : v.tasks ≤ v'.tasks) {e : Entry}
    (hj : v'.journal = e :: v.journal) (he : ∀ i, e.event.task? = some i → w.tasks ≤ i) :
    w.Precedes v' := by
  have hone : v'.journal = [e] ++ v.journal := hj
  refine h.extend hn hone ?_
  intro e' hmem
  cases List.mem_singleton.mp hmem
  exact he

theorem Precedes.notes {w w' : World σ} (h : w.Precedes w') {e : Event} (hn : w.Notes w' e) {i : Nat}
    (he : e.task? = some i) : w.tasks ≤ i ∧ ∃ time, ⟨time, e⟩ ∈ w'.journal := by
  obtain ⟨news, time, hj, hmem⟩ := hn
  obtain ⟨-, news', hj', hlater⟩ := h
  refine ⟨?_, time, hj ▸ List.mem_append_left _ hmem⟩
  cases List.append_cancel_right (hj.symm.trans hj')
  exact hlater _ hmem i he

end World

namespace Traffic

variable {σ : Type} {p : Peer σ} {c : Setup}

theorem precedes_kept (w : World σ) : Kept p c w.Precedes (fun _ t => w.tasks ≤ t.id) where
  begin v goal deadline h :=
    ⟨h.extend (Nat.le_succ _) (List.nil_append _).symm (by simp), h.begun, fun _ hu => hu⟩
  move v t v' t' h ht hm := by
    obtain ⟨events, hj, hevents, -⟩ := hm.journal_eq
    refine ⟨h.extend (Nat.le_of_eq hm.tasks_eq.symm) hj ?_, hm.id_eq ▸ ht, fun _ _ hu => hu⟩
    intro e he i hi
    obtain ⟨event, hevent, rfl⟩ := List.mem_map.mp he
    rcases hevents event hevent with hown | ⟨token, rfl⟩
    · cases hi.symm.trans hown
      exact ht
    · cases hi
  expire v t h ht _ _ := by
    refine ⟨h.entry (Nat.le_refl _) rfl ?_, ht, fun _ _ hu => hu⟩
    intro i hi
    cases hi
    exact ht
  drop v t h _ := ⟨⟨h.begun, h.journal⟩, fun _ _ hu => hu⟩
  elapse v time h _ := ⟨⟨h.begun, h.journal⟩, fun _ hu => hu⟩
  date v date h := ⟨⟨h.begun, h.journal⟩, fun _ hu => hu⟩
  limit v a mark l h _ := ⟨⟨h.begun, h.journal⟩, fun _ hu => hu⟩
  invalidate v token h := by
    refine ⟨h.entry (Nat.le_refl _) rfl ?_, fun _ hu => hu⟩
    intro i hi
    cases hi

theorem unsent_kept : Kept p c World.Recorded (fun w t => t.id < w.tasks ∧
    ((∀ r url, t.goal ≠ .call r url) → Journal.tries t.id w.journal = [])) := by
  refine Kept.ofTries (Q := fun t tries => (∀ r url, t.goal ≠ .call r url) → tries = []) ?_ ?_ ?_
  · exact fun _ _ _ _ => rfl
  · intro w t w' t' h hm hno
    rw [hm.goal_eq] at hno
    have hnone := h hno
    cases hm with
    | send hs hg _ | succeed hs hw hg _ _ | fail hs hw hg _ _ | reject hs hw hg _ _ _
    | slow hs hw hg _ _ _ _ | retry hs hw hg _ _ _ _ => exact absurd hg (hno _ _)
    | _ => exact hnone
  · exact fun _ _ _ h _ _ => h

/-- Only a call sends, and what it sends are attempts of its own request. -/
theorem sent_own {w w' : World σ} {ts : List Task} (hrecorded : w.Recorded)
    (hrun : Reaches p c ⟨w, []⟩ ⟨w', ts⟩) {t : Task} (ht : t ∈ ts) {time : Instant} {a : Attempt}
    (hsent : ⟨time, .sent t.id a⟩ ∈ w'.journal) : ∃ r url authorization, t.goal = .call r url ∧
      a = r.attempt url authorization c.timeout := by
  obtain ⟨-, htried⟩ := tried_kept.reaches hrun hrecorded (by simp)
  obtain ⟨-, hunsent⟩ := unsent_kept.reaches hrun hrecorded (by simp)
  obtain ⟨x, hx, rfl⟩ := List.mem_map.mp (Journal.mem_tries_of_sent hsent)
  by_cases hg : ∃ r url, t.goal = .call r url
  · obtain ⟨r, url, hg⟩ := hg
    obtain ⟨⟨authorization, hattempt⟩, -⟩ := ((htried t ht).2 r url hg).own x hx
    exact ⟨r, url, authorization, hg, hattempt⟩
  · rw [(hunsent t ht).2 fun r url hg' => hg ⟨r, url, hg'⟩] at hx
    cases hx

end Traffic

/-- However tasks that are carried out together end, what they send are attempts of the calls among their
orders. -/
theorem World.perform_sent {σ : Type} {p : Peer σ} {c : Setup} {w w' : World σ} {window : Nat}
    {orders : List Order} {result : Except Fault (List Outcome)}
    (h : w.perform p c window orders = (w', result)) (hw : w.Idle) (hrecorded : w.Recorded) {i : Nat}
    {a : Attempt} (hn : w.Notes w' (.sent i a)) : ∃ o ∈ orders, ∃ r url authorization,
      o.goal = .call r url ∧ a = r.attempt url authorization c.timeout := by
  obtain ⟨w₁, ts, hrun, hbegun, hjournal⟩ := perform_begun h hw
  obtain ⟨hprecedes, -⟩ := (Traffic.precedes_kept w).reaches hrun (.refl w) (by simp)
  obtain ⟨hrecorded₁, -⟩ := Traffic.tried_kept.reaches hrun hrecorded (by simp)
  obtain ⟨news, time, hj, hmem⟩ := hn
  have hnotes : w.Notes w₁ (.sent i a) := ⟨news, time, hjournal ▸ hj, hmem⟩
  obtain ⟨hlate, time₁, hsent⟩ := hprecedes.notes hnotes rfl
  obtain ⟨t, ht, rfl⟩ := hbegun.exists_task hlate (hrecorded₁ _ hsent i rfl)
  obtain ⟨r, url, authorization, hg, hattempt⟩ := Traffic.sent_own hrecorded hrun ht hsent
  obtain ⟨o, ho, hgoal⟩ := List.mem_map.mp (hbegun.goals t ht)
  exact ⟨o, ho, r, url, authorization, hgoal.trans hg, hattempt⟩

/-- A logical call: the task that carried it out, what it asked for, and what it came to. -/
structure CallRecord where
  task : Nat
  request : Request
  answer : Except Failure Response

namespace CallRecord

/-- The calls among tasks that are numbered from `n`, from what each asked for and what it came to. -/
def list : Nat → List (Option Request) → List (Except Failure Response) → List CallRecord
  | n, some r :: asked, answer :: answers => ⟨n, r, answer⟩ :: list (n + 1) asked answers
  | n, none :: asked, _ :: answers => list (n + 1) asked answers
  | _, _, _ => []

variable {n : Nat} {asked : List (Option Request)} {answers : List (Except Failure Response)}

theorem mem_list {x : CallRecord} : x ∈ list n asked answers ↔
    ∃ j, x.task = n + j ∧ asked[j]? = some (some x.request) ∧ answers[j]? = some x.answer := by
  induction asked generalizing n answers with
  | nil => simp [list]
  | cons r? asked ih =>
    cases answers with
    | nil => cases r? <;> simp [list]
    | cons answer answers =>
      have hrest : x ∈ list (n + 1) asked answers ↔ ∃ j, x.task = n + (j + 1) ∧
          asked[j]? = some (some x.request) ∧ answers[j]? = some x.answer := by
        rw [ih]
        simp only [Nat.add_assoc, Nat.add_comm 1]
      constructor
      · intro h
        cases r? with
        | none =>
          obtain ⟨j, hj⟩ := hrest.mp h
          exact ⟨j + 1, hj⟩
        | some r =>
          rcases List.mem_cons.mp h with rfl | h
          · exact ⟨0, rfl, rfl, rfl⟩
          · obtain ⟨j, hj⟩ := hrest.mp h
            exact ⟨j + 1, hj⟩
      · rintro ⟨j, htask, hasked, hanswer⟩
        cases j with
        | zero =>
          obtain ⟨task, request, answer'⟩ := x
          cases htask
          cases hasked
          cases hanswer
          exact List.mem_cons_self
        | succ j =>
          have hmem := hrest.mpr ⟨j, htask, hasked, hanswer⟩
          cases r? with
          | none => exact hmem
          | some r => exact List.mem_cons_of_mem _ hmem

theorem pairwise_list : ((list n asked answers).map (·.task)).Pairwise (· < ·) := by
  induction asked generalizing n answers with
  | nil => exact .nil
  | cons r? asked ih =>
    cases answers with
    | nil => cases r? <;> exact .nil
    | cons answer answers =>
      cases r? with
      | none => exact ih
      | some r =>
        refine .cons ?_ ih
        intro i hi
        obtain ⟨x, hx, rfl⟩ := List.mem_map.mp hi
        obtain ⟨j, htask, -⟩ := mem_list.mp hx
        change n < x.task
        omega

theorem requests_list (h : answers.length = asked.length) :
    (list n asked answers).map (·.request) = asked.filterMap id := by
  induction asked generalizing n answers with
  | nil => rfl
  | cons r? asked ih =>
    cases answers with
    | nil => cases h
    | cons answer answers =>
      have hrest := ih (n := n + 1) (Nat.succ.inj h)
      cases r? with
      | none => exact hrest
      | some r => exact congrArg (r :: ·) hrest

theorem answers_list {rs : List Request} (h : answers.length = rs.length) :
    (list n (rs.map some) answers).map (·.answer) = answers := by
  induction rs generalizing n answers with
  | nil => exact (List.length_eq_zero_iff.mp h).symm
  | cons r rs ih =>
    cases answers with
    | nil => cases h
    | cons answer answers => exact congrArg (answer :: ·) (ih (Nat.succ.inj h))

end CallRecord

namespace Client

variable {σ : Type} {k : Client} {p : Peer σ} {date : UtcTime} {credential : Option Credential}
  {peer : σ} {w w' : World σ} {window : Nat} {orders : List Order}

/-- What an order asks for, if its task does not just fail. -/
def Asks (k : Client) (o : Order) : Option Request → Prop
  | some r => o.goal = .ofRequest k.setup.base r
  | none => ∃ f, o.goal = .stray f

theorem Asks.isCall {o : Order} {r? : Option Request} (h : k.Asks o r?) : o.IsCall := by
  cases r? with
  | none => exact .inr h
  | some r =>
    have hgoal : o.goal = .ofRequest k.setup.base r := h
    cases hurl : r.url k.setup.base with
    | ok url => exact .inl ⟨r, url, by rw [hgoal, Goal.ofRequest, hurl]⟩
    | error f => exact .inr ⟨f, by rw [hgoal, Goal.ofRequest, hurl]⟩

theorem Asks.call {o : Order} {r? : Option Request} (h : k.Asks o r?) {r : Request} {url : Url}
    (hg : o.goal = .call r url) : r? = some r ∧ r.url k.setup.base = .ok url := by
  cases r? with
  | none =>
    obtain ⟨f, hf⟩ := h
    cases hg.symm.trans hf
  | some r' =>
    have hgoal : o.goal = .ofRequest k.setup.base r' := h
    rw [hg, Goal.ofRequest] at hgoal
    split at hgoal
    · rename_i hurl
      cases hgoal
      exact ⟨rfl, hurl⟩
    · cases hgoal

/-- From one state of the world to another these calls were made, each by a task of its own, and nothing
was sent but their attempts. -/
structure Made (k : Client) (p : Peer σ) (w w' : World σ) (calls : List CallRecord) : Prop where
  distinct : (calls.map (·.task)).Pairwise (· < ·)
  carried : ∃ ts, Traffic.Reaches p k.setup ⟨w, []⟩ ⟨w', ts⟩ ∧ ∀ x ∈ calls, ∃ t ∈ ts,
    t.id = x.task ∧ t.goal = .ofRequest k.setup.base x.request ∧
      t.stage = .done (.answer x.answer)
  sent : ∀ i a, w.Notes w' (.sent i a) → ∃ x ∈ calls, x.task = i ∧ ∃ url authorization,
    x.request.url k.setup.base = .ok url ∧
      a = x.request.attempt url authorization k.setup.timeout

/-- What a call got a response for has been sent. -/
theorem Made.delivered {calls : List CallRecord}
    (hr : Traffic.Reaches p k.setup ⟨k.world date credential peer, []⟩ ⟨w, []⟩) (h : k.Made p w w' calls)
    {x : CallRecord} (hx : x ∈ calls) {a : Response} (ha : x.answer = .ok a) : ∃ url authorization,
      x.request.url k.setup.base = .ok url ∧
        w.Notes w' (.sent x.task (x.request.attempt url authorization k.setup.timeout)) := by
  obtain ⟨ts, hrun, hcalls⟩ := h.carried
  obtain ⟨t, ht, hid, hgoal, hstage⟩ := hcalls x hx
  rw [ha] at hstage
  obtain ⟨hrecorded, -⟩ := Traffic.tried_kept.reaches hr (Traffic.recorded_start _ _ _ _) (by simp)
  obtain ⟨-, htried⟩ := Traffic.tried_kept.reaches hrun hrecorded (by simp)
  obtain ⟨-, hanswering⟩ := Traffic.answering_kept.reaches hrun trivial (by simp)
  cases hurl : x.request.url k.setup.base with
  | error f =>
    rw [Goal.ofRequest, hurl] at hgoal
    rcases (hanswering t ht).stray f hgoal with hs | ⟨f', hs⟩ <;> cases hstage.symm.trans hs
  | ok url =>
    rw [Goal.ofRequest, hurl] at hgoal
    obtain ⟨-, htried⟩ := htried t ht
    obtain ⟨-, y, rest, htries, -⟩ := (htried _ _ hgoal).succeeds a hstage
    have hy : y ∈ Journal.tries t.id w'.journal := htries ▸ List.mem_cons_self
    obtain ⟨⟨authorization, hattempt⟩, -⟩ := (htried _ _ hgoal).own y hy
    obtain ⟨time, hsent⟩ := Journal.sent_of_mem_tries hy
    obtain ⟨hprecedes, hlate⟩ := (Traffic.precedes_kept w).reaches hrun (.refl w) (by simp)
    obtain ⟨news, hj, -⟩ := hprecedes.journal
    have hnew : ⟨time, .sent t.id y.attempt⟩ ∈ news := by
      obtain hnew | hold := List.mem_append.mp (hj ▸ hsent)
      · exact hnew
      · exact absurd (hrecorded _ hold t.id rfl) (Nat.not_lt_of_le (hlate t ht))
    exact ⟨url, authorization, rfl, news, time, hj, hid ▸ hattempt ▸ hnew⟩

/-- The task of an order, done with its answer. -/
structure Settles (t : Task) (o : Order) (answer : Except Failure Response) : Prop where
  goal : t.goal = o.goal
  limited : t.deadline.isSome = o.deadline.isSome
  stage : t.stage = .done (.answer answer)

/-- Calls that come to no answers at all have met with what there is no reckoning with. -/
theorem answersTo_overrun {fault : Fault}
    (hr : Traffic.Reaches p k.setup ⟨k.world date credential peer, []⟩ ⟨w, []⟩)
    (h : k.answersTo p window orders w = (.error fault, w')) :
    World.Overrun p k.setup k.quota w w' := by
  rcases Effect.bind_error h with hperform | ⟨outcomes, w₁, -, hpure⟩
  · exact World.perform_overrun hr (Effect.perform_eq hperform)
  · cases hpure

section Orders

variable {α : Type} {xs : List α} {order : α → Order} {want : α → Option Request}
  {answers : List (Except Failure Response)}

theorem answersTo_tasks (hw : w.Idle) (ho : ∀ x ∈ xs, (order x).IsCall)
    (h : k.answersTo p window (xs.map order) w = (.ok answers, w')) :
    ∃ ts, Traffic.Reaches p k.setup ⟨w, []⟩ ⟨w', ts⟩ ∧ w'.tasks = w.tasks + xs.length ∧
      answers.length = xs.length ∧ ∀ j x, xs[j]? = some x → ∃ t ∈ ts, ∃ answer,
        answers[j]? = some answer ∧ t.id = w.tasks + j ∧ Settles t (order x) answer := by
  have hcall : ∀ o ∈ xs.map order, o.IsCall := by
    intro o hmem
    obtain ⟨x, hx, rfl⟩ := List.mem_map.mp hmem
    exact ho x hx
  obtain ⟨ts, hrun, hgoals, hids, hstages, hlimits, hcount⟩ := answersTo_ok hw hcall h
  have hlen : answers.length = xs.length := by
    have hstaged := congrArg List.length hstages
    have hmade := congrArg List.length hgoals
    simp only [List.length_map] at hstaged hmade
    exact hstaged.symm.trans hmade
  refine ⟨ts, hrun, by rw [hcount, List.length_map], hlen, ?_⟩
  intro j x hx
  have hj : j < xs.length := (List.getElem?_eq_some_iff.mp hx).1
  obtain ⟨answer, ha⟩ : ∃ answer, answers[j]? = some answer :=
    ⟨_, List.getElem?_eq_getElem (hlen ▸ hj)⟩
  have hgoal := congrArg (·[j]?) hgoals
  have hid := congrArg (·[j]?) hids
  have hstage := congrArg (·[j]?) hstages
  have hlimit := congrArg (·[j]?) hlimits
  simp only [List.getElem?_map, hx, ha, Option.map_some] at hgoal hid hstage hlimit
  obtain ⟨t, ht, hgoal⟩ := Option.map_eq_some_iff.mp hgoal
  rw [ht] at hid hstage hlimit
  rw [List.length_map, List.getElem?_range' hj, Nat.one_mul] at hid
  exact ⟨t, List.mem_of_getElem? ht, answer, ha, Option.some.inj hid,
    ⟨hgoal, Option.some.inj hlimit, Option.some.inj hstage⟩⟩

theorem answersTo_tried
    (hr : Traffic.Reaches p k.setup ⟨k.world date credential peer, []⟩ ⟨w, []⟩)
    (ho : ∀ x ∈ xs, (order x).IsCall)
    (h : k.answersTo p window (xs.map order) w = (.ok answers, w')) :
    ∃ ts, Traffic.Reaches p k.setup ⟨w, []⟩ ⟨w', ts⟩ ∧ w'.tasks = w.tasks + xs.length ∧
      answers.length = xs.length ∧ ∀ j x, xs[j]? = some x → ∃ t ∈ ts, ∃ answer,
        answers[j]? = some answer ∧ t.id = w.tasks + j ∧ Settles t (order x) answer ∧
          (∀ r url, t.goal = .call r url →
            Traffic.Tried p k.setup r url t (Journal.tries t.id w'.journal)) ∧
          Traffic.Answering t := by
  have hidle : w.Idle := (World.Idle.start date k.quota credential peer).of_reaches hr
  obtain ⟨ts, hrun, hcount, hlen, htask⟩ := answersTo_tasks hidle ho h
  obtain ⟨hrecorded, -⟩ := Traffic.tried_kept.reaches hr (Traffic.recorded_start _ _ _ _) (by simp)
  obtain ⟨-, htried⟩ := Traffic.tried_kept.reaches hrun hrecorded (by simp)
  obtain ⟨-, hanswering⟩ := Traffic.answering_kept.reaches hrun trivial (by simp)
  refine ⟨ts, hrun, hcount, hlen, fun j x hx => ?_⟩
  obtain ⟨t, ht, answer, ha, hid, hsettles⟩ := htask j x hx
  exact ⟨t, ht, answer, ha, hid, hsettles, (htried t ht).2, hanswering t ht⟩

theorem answersTo_made
    (hr : Traffic.Reaches p k.setup ⟨k.world date credential peer, []⟩ ⟨w, []⟩)
    (ho : ∀ x ∈ xs, k.Asks (order x) (want x))
    (h : k.answersTo p window (xs.map order) w = (.ok answers, w')) :
    answers.length = xs.length ∧ k.Made p w w' (CallRecord.list w.tasks (xs.map want) answers) := by
  obtain ⟨ts, hrun, hcount, hlen, htask⟩ := answersTo_tried hr (fun x hx => (ho x hx).isCall) h
  obtain ⟨hrecorded, -⟩ := Traffic.tried_kept.reaches hr (Traffic.recorded_start _ _ _ _) (by simp)
  obtain ⟨hrecorded', -⟩ := Traffic.tried_kept.reaches hrun hrecorded (by simp)
  obtain ⟨hprecedes, -⟩ := (Traffic.precedes_kept w).reaches hrun (.refl w) (by simp)
  refine ⟨hlen, CallRecord.pairwise_list, ⟨ts, hrun, ?_⟩, ?_⟩
  · intro x hx
    obtain ⟨j, hid, hasked, hanswer⟩ := CallRecord.mem_list.mp hx
    rw [List.getElem?_map] at hasked
    obtain ⟨y, hy, hwant⟩ := Option.map_eq_some_iff.mp hasked
    obtain ⟨t, ht, answer, ha, htid, hsettles, -⟩ := htask j y hy
    cases ha.symm.trans hanswer
    have hasks := ho y (List.mem_of_getElem? hy)
    rw [hwant] at hasks
    exact ⟨t, ht, htid.trans hid.symm, hsettles.goal.trans hasks, hsettles.stage⟩
  · intro i a hn
    obtain ⟨hlate, time, hmem⟩ := hprecedes.notes hn rfl
    have hearly : i < w'.tasks := hrecorded' _ hmem i rfl
    obtain ⟨j, rfl⟩ := Nat.exists_eq_add_of_le hlate
    have hj : j < xs.length := by omega
    obtain ⟨t, ht, answer, hanswer, hid, hsettles, -⟩ := htask j _ (List.getElem?_eq_getElem hj)
    obtain ⟨r, url, authorization, hg, hattempt⟩ := Traffic.sent_own hrecorded hrun ht (hid ▸ hmem)
    obtain ⟨hwant, hurl⟩ := (ho _ (List.getElem_mem hj)).call (hsettles.goal.symm.trans hg)
    refine ⟨⟨w.tasks + j, r, answer⟩, CallRecord.mem_list.mpr ⟨j, rfl, ?_, hanswer⟩, rfl, url,
      authorization, hurl, hattempt⟩
    rw [List.getElem?_map, List.getElem?_eq_getElem hj]
    exact congrArg some hwant

end Orders

end Client

end CatalogClient
