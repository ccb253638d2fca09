import CatalogClient.Proofs.Client.Calls
import CatalogClient.Proofs.Pipeline.Served
/-!
Calls that nothing keeps from their answers: a service that answers their attempts with successes, tokens
for whoever asks, no deadline that passes, and a clock with room. Such a call comes to its response.
-/

namespace CatalogClient

namespace Traffic

variable {σ : Type} {p : Peer σ} {c : Setup}

/-- A call whose attempts are all answered with a success is not tried again. -/
def Unretried (p : Peer σ) (c : Setup) (t : Task) : Prop :=
  (∀ r url, t.goal = .call r url → p.Serves c r url) → t.retry = .start

theorem Unretried.move {w w' : World σ} {t t' : Task} (h : Unretried p c t)
    (ht : ∀ r url, t.goal = .call r url → Tried p c r url t (Journal.tries t.id w.journal))
    (hm : t.Move p c w w' t') : Unretried p c t' := by
  intro hserves
  rw [hm.goal_eq] at hserves
  cases hm with
  | reject hs hw hg hf | slow hs hw hg hf | retry hs hw hg hf =>
    exact absurd hf ((ht _ _ hg).never_fails hg (hserves _ _ hg) hs _)
  | _ => exact h hserves

theorem unretried_kept : Kept p c World.Recorded (fun w t => t.id < w.tasks ∧
    (∀ r url, t.goal = .call r url → Tried p c r url t (Journal.tries t.id w.journal)) ∧
      Unretried p c t) := by
  refine Kept.ofTries (Q := fun t tries =>
    (∀ r url, t.goal = .call r url → Tried p c r url t tries) ∧ Unretried p c t) ?_ ?_ ?_
  · exact fun w goal deadline => ⟨fun r url _ => .start w goal deadline, fun _ => rfl⟩
  · intro w t w' t' h hm
    refine ⟨?_, h.2.move h.1 hm⟩
    intro r url hg
    rw [hm.goal_eq] at hg
    exact (h.1 r url hg).move hg hm
  · exact fun w t tries h _ _ => ⟨fun r url hg => (h.1 r url hg).expire w, h.2⟩

theorem later_kept (w : World σ) : Kept p c (fun v => w.now ≤ v.now) (fun _ _ => True) where
  begin _ _ _ h := ⟨h, True.intro, fun _ _ => True.intro⟩
  move _ _ _ _ h _ hm := ⟨hm.now_eq.symm ▸ h, True.intro, fun _ _ _ => True.intro⟩
  expire _ _ h _ _ _ := ⟨h, True.intro, fun _ _ _ => True.intro⟩
  drop _ _ h _ := ⟨h, fun _ _ _ => True.intro⟩
  elapse _ _ h hle := ⟨Nat.le_trans h hle, fun _ _ => True.intro⟩
  date _ _ h := ⟨h, fun _ _ => True.intro⟩
  limit _ _ _ _ h _ := ⟨h, fun _ _ => True.intro⟩
  invalidate _ _ h := ⟨h, fun _ _ => True.intro⟩

end Traffic

namespace World

open Traffic

variable {σ : Type} {p : Peer σ} {c : Setup} {w w₁ w' : World σ}

theorem Notes.from {e : Event} (h : w₁.Notes w' e) (hr : Reaches p c ⟨w, []⟩ ⟨w₁, []⟩) :
    w.Notes w' e := by
  obtain ⟨hprecedes, -⟩ := (precedes_kept w).reaches hr (.refl w) (by simp)
  obtain ⟨news, hnews, -⟩ := hprecedes.journal
  obtain ⟨es, time, hj, hmem⟩ := h
  exact ⟨es ++ news, time, by rw [hj, hnews, List.append_assoc], List.mem_append_left _ hmem⟩

theorem Notes.until {e : Event} (h : w.Notes w₁ e) (hr : Reaches p c ⟨w₁, []⟩ ⟨w', []⟩) :
    w.Notes w' e := by
  obtain ⟨hprecedes, -⟩ := (precedes_kept w₁).reaches hr (.refl w₁) (by simp)
  obtain ⟨news, hnews, -⟩ := hprecedes.journal
  obtain ⟨es, time, hj, hmem⟩ := h
  exact ⟨news ++ es, time, by rw [hnews, hj, List.append_assoc], List.mem_append_right _ hmem⟩

/-- Between two states no task ran out of time, and the clock has room for another period of the quota. -/
structure Unhurried (q : Quota) (w w' : World σ) : Prop where
  deadlines : ∀ i, ¬ w.Notes w' (.expired i)
  clock : w'.now.nanos + q.period.nanos < Instant.horizon

theorem Unhurried.of_quiet {q : Quota} (h : (w'.journal.all fun e => match e.event with
      | .expired _ => false
      | _ => true) = true) (hclock : w'.now.nanos + q.period.nanos < Instant.horizon) :
    w.Unhurried q w' := by
  refine ⟨?_, hclock⟩
  rintro i ⟨news, time, hj, hmem⟩
  rw [hj] at h
  cases List.all_eq_true.mp h _ (List.mem_append_left _ hmem)

theorem Unhurried.before {q : Quota} (h : w.Unhurried q w') (hr : Reaches p c ⟨w₁, []⟩ ⟨w', []⟩) :
    w.Unhurried q w₁ := by
  obtain ⟨hlater, -⟩ := (later_kept w₁).reaches hr (Nat.le_refl _) (by simp)
  exact ⟨fun i hi => h.deadlines i (hi.until hr),
    Nat.lt_of_le_of_lt (Nat.add_le_add_right hlater _) h.clock⟩

theorem Unhurried.after {q : Quota} (h : w.Unhurried q w') (hr : Reaches p c ⟨w, []⟩ ⟨w₁, []⟩) :
    w₁.Unhurried q w' := ⟨fun i hi => h.deadlines i (hi.from hr), h.clock⟩

end World

/-- The call leads somewhere, and each of its attempts is answered, whatever the answer says. -/
def Peer.Replies {σ : Type} (p : Peer σ) (c : Setup) (r : Request) : Prop :=
  ∃ url, r.url c.base = .ok url ∧ ∀ authorization peer, ∃ a,
    (p.send (r.attempt url authorization c.timeout) peer).1.answer = .ok a

namespace Client

open Traffic

variable {σ : Type} {k : Client} {p : Peer σ} {date : UtcTime} {credential : Option Credential}
  {peer : σ} {w w' : World σ} {r : Request} {url : Url}

theorem answersTo_performs {window : Nat} {orders : List Order}
    {result : Except Fault (List (Except Failure Response))}
    (h : k.answersTo p window orders w = (result, w')) :
    ∃ outcomes, w.perform p k.setup window orders = (w', outcomes) := by
  cases result with
  | error fault =>
    rcases Effect.bind_error h with hperform | ⟨outcomes, w₁, -, hpure⟩
    · exact ⟨_, Effect.perform_eq hperform⟩
    · cases hpure
  | ok answers =>
    obtain ⟨outcomes, w₁, hperform, hpure⟩ := Effect.bind_ok.mp h
    obtain ⟨-, rfl⟩ := Effect.pure_ok.mp hpure
    exact ⟨_, Effect.perform_eq hperform⟩

theorem execute_cases {result : Except Fault (Except Failure Response)}
    (h : (k.execute p r).run w = (result, w')) :
    (∃ fault, result = .error fault ∧ k.answersTo p 1 [k.order r] w = (.error fault, w')) ∨
      ∃ answers, k.answersTo p 1 [k.order r] w = (.ok answers, w') ∧
        ∀ answer, answers = [answer] → result = .ok answer := by
  change (k.answersTo p 1 [k.order r] >>= _) w = _ at h
  rw [Effect.bind_apply] at h
  rcases hanswers : k.answersTo p 1 [k.order r] w with ⟨fault | answers, w₁⟩
  · rw [hanswers] at h
    cases h
    exact .inl ⟨fault, rfl, rfl⟩
  · rw [hanswers] at h
    refine .inr ⟨answers, ?_, ?_⟩
    · dsimp only at h
      split at h <;> cases h <;> rfl
    · rintro answer rfl
      cases h
      rfl

theorem execute_performs {result : Except Fault (Except Failure Response)}
    (h : (k.execute p r).run w = (result, w')) :
    ∃ outcomes, w.perform p k.setup 1 [k.order r] = (w', outcomes) := by
  rcases execute_cases h with ⟨fault, -, hanswers⟩ | ⟨answers, hanswers, -⟩
  · exact answersTo_performs hanswers
  · exact answersTo_performs hanswers

/-- Where tokens are issued, only its deadline hinders a call. -/
theorem expired_of_hindrance (hr : Reaches p k.setup ⟨k.world date credential peer, []⟩ ⟨w, []⟩)
    (hissues : p.Issues w.date) {ts : List Task} (hrun : Reaches p k.setup ⟨w, []⟩ ⟨w', ts⟩) {t : Task}
    (hid : w.tasks ≤ t.id) (hgoal : t.goal = .call r url) {f : Failure} (h : Hindrance w' t f) :
    t.deadline.isSome ∧ w.Notes w' (.expired t.id) ∧ ∃ elapsed, f = .timeout elapsed := by
  obtain ⟨⟨haccounted, hrecorded⟩, -⟩ := hindered_kept.reaches hr
    ⟨accounted_start _ _ _ _ _, recorded_start _ _ _ _⟩ (by simp)
  obtain ⟨⟨haccounted', -⟩, -⟩ := hindered_kept.reaches hrun ⟨haccounted, hrecorded⟩ (by simp)
  obtain ⟨hprecedes, -⟩ := (precedes_kept w).reaches hrun (.refl w) (by simp)
  cases h with
  | exchange hreported =>
    obtain ⟨g, peer', hanswer⟩ := haccounted'.exchanges f hreported
    obtain ⟨token, credential', htoken, -⟩ := hissues g peer'
    cases htoken.symm.trans hanswer
  | @deadline time elapsed hd hj hf =>
    obtain ⟨news, hnews, -⟩ := hprecedes.journal
    rw [hnews] at hj
    rcases List.mem_append.mp hj with hnew | hold
    · exact ⟨hd, ⟨news, time, hnews, hnew⟩, elapsed, hf⟩
    -- Before this call the journal told nothing of its task.
    · exact absurd (hrecorded _ hold t.id rfl) (Nat.not_lt_of_le hid)
  | stray hg => cases hgoal.symm.trans hg

/-- How a call ends whose attempts are all answered: as one of the answers says, or because its time ran
out. -/
inductive Ends (k : Client) (p : Peer σ) (w w' : World σ) (r : Request) : Except Failure Response → Prop
  | answered {url : Url} {authorization : String} {peer : σ} {a : Response} {elapsed : Span} {n : Nat}
    (resolved : r.url k.setup.base = .ok url)
    (sent : (p.send (r.attempt url authorization k.setup.timeout) peer).1.answer = .ok a) :
    Ends k p w w' r (RetryPolicy.outcome (.ok (a.stamped elapsed n)) r.path)
  | expired {i : Nat} {elapsed : Span} (limited : (r.deadline.or k.setup.deadline).isSome)
    (noted : w.Notes w' (.expired i)) : Ends k p w w' r (.error (.timeout elapsed))

theorem ends_of_settles (hr : Reaches p k.setup ⟨k.world date credential peer, []⟩ ⟨w, []⟩)
    (hissues : p.Issues w.date) {ts : List Task} (hrun : Reaches p k.setup ⟨w, []⟩ ⟨w', ts⟩) {t : Task}
    (hid : w.tasks ≤ t.id) {answer : Except Failure Response} (ht : Settles t (k.order r) answer)
    (hp : p.Replies k.setup r)
    (htried : ∀ r url, t.goal = .call r url → Tried p k.setup r url t (Journal.tries t.id w'.journal))
    (hhindered : Hindered p k.setup w' t) : k.Ends p w w' r answer := by
  obtain ⟨url, hurl, hanswers⟩ := hp
  have hgoal : t.goal = .call r url := ht.goal.trans (by simp [order, Goal.ofRequest, hurl])
  cases answer with
  | ok a =>
    obtain ⟨authorization, peer', b, elapsed, n, hb, hok, rfl⟩ := (htried r url hgoal).response ht.stage
    rw [← RetryPolicy.outcome_of_success (a := b.stamped elapsed n) hok r.path]
    exact .answered hurl hb
  | error f =>
    rcases hhindered f ht.stage with hhindrance | ⟨r', url', authorization, peer', elapsed, n, hg, hf⟩
    · obtain ⟨hlimit, hnoted, elapsed, rfl⟩ := expired_of_hindrance hr hissues hrun hid hgoal hhindrance
      exact .expired (ht.limited ▸ hlimit) hnoted
    · cases hgoal.symm.trans hg
      obtain ⟨a, ha⟩ := hanswers authorization peer'
      rw [ha] at hf
      rw [← hf]
      exact .answered hurl ha

theorem answersTo_ends {window : Nat} {rs : List Request} {answers : List (Except Failure Response)}
    (hr : Reaches p k.setup ⟨k.world date credential peer, []⟩ ⟨w, []⟩) (hissues : p.Issues w.date)
    (hp : ∀ r ∈ rs, p.Replies k.setup r)
    (h : k.answersTo p window (rs.map k.order) w = (.ok answers, w')) :
    w'.tasks = w.tasks + rs.length ∧ List.Forall₂ (k.Ends p w w') rs answers := by
  obtain ⟨ts, hrun, hcount, hlen, htask⟩ :=
    answersTo_tried hr (fun r _ => (k.order_forCall r).isCall) h
  obtain ⟨hkept, -⟩ := hindered_kept.reaches hr
    ⟨accounted_start _ _ _ _ _, recorded_start _ _ _ _⟩ (by simp)
  obtain ⟨-, hhindered⟩ := hindered_kept.reaches hrun hkept (by simp)
  refine ⟨hcount, List.forall₂_iff_get.mpr ⟨hlen.symm, ?_⟩⟩
  intro j hj hj'
  obtain ⟨t, ht, answer, ha, hid, hsettles, htried, -⟩ := htask j _ (List.getElem?_eq_getElem hj)
  cases (List.getElem?_eq_getElem hj').symm.trans ha
  exact ends_of_settles hr hissues hrun (by omega) hsettles (hp _ (List.getElem_mem hj)) htried
    (hhindered t ht).2

/-- A call that is served, and that nothing hinders, comes to a response that the service gave to it. -/
theorem execute_served {result : Except Fault (Except Failure Response)}
    (hr : Reaches p k.setup ⟨k.world date credential peer, []⟩ ⟨w, []⟩)
    (hurl : r.url k.setup.base = .ok url) (hserves : p.Serves k.setup r url)
    (hissues : p.Issues w.date) (h : (k.execute p r).run w = (result, w'))
    (hunhurried : w.Unhurried k.quota w') :
    w'.tasks = w.tasks + 1 ∧ ∃ authorization peer b elapsed n, result = .ok (.ok (b.stamped elapsed n)) ∧
      (p.send (r.attempt url authorization k.setup.timeout) peer).1.answer = .ok b := by
  have hgoal : (k.order r).goal = .call r url := by simp [order, Goal.ofRequest, hurl]
  rcases execute_cases h with ⟨fault, rfl, hanswers⟩ | ⟨answers, hanswers, hresult⟩
  · exfalso
    rcases Effect.bind_error hanswers with hperform | ⟨outcomes, w₁, -, hpure⟩
    · have hfault := World.perform_fault hr (Effect.perform_eq hperform) <| by
        intro w₁ ts hrun t ht hg ha
        obtain ⟨hrecorded, -⟩ := unretried_kept.reaches hr (recorded_start _ _ _ _) (by simp)
        obtain ⟨-, hkept⟩ := unretried_kept.reaches hrun hrecorded (by simp)
        have hcall : t.goal = .call r url := (List.mem_singleton.mp hg).trans hgoal
        have hstart := (hkept t ht).2.2 <| by
          intro r' url' hg'
          cases hcall.symm.trans hg'
          exact hserves
        rw [hstart] at ha
        cases ha
      rcases hfault with ⟨g, peer', token, fault', hanswer, hissued⟩ | hlate
      · obtain ⟨token', credential', htoken, hissued'⟩ := hissues g peer'
        cases htoken.symm.trans hanswer
        cases hissued'.symm.trans hissued
      · exact Nat.not_lt_of_le hlate hunhurried.clock
    · cases hpure
  · have hreplies : ∀ r' ∈ [r], p.Replies k.setup r' := by
      intro r' hr'
      cases List.mem_singleton.mp hr'
      refine ⟨url, hurl, fun authorization peer' => ?_⟩
      obtain ⟨a, ha, -⟩ := hserves authorization peer'
      exact ⟨a, ha⟩
    have hlist : k.answersTo p 1 ([r].map k.order) w = (.ok answers, w') := hanswers
    obtain ⟨hcount, hends⟩ := answersTo_ends hr hissues hreplies hlist
    obtain ⟨answer, hend, rfl⟩ : ∃ answer, k.Ends p w w' r answer ∧ answers = [answer] := by
      cases hends with
      | cons hend hnone =>
        cases hnone
        exact ⟨_, hend, rfl⟩
    cases hend with
    | @answered url' authorization peer' a elapsed n resolved sent =>
      cases hurl.symm.trans resolved
      obtain ⟨b, hb, hok⟩ := hserves authorization peer'
      cases hb.symm.trans sent
      refine ⟨hcount, authorization, peer', a, elapsed, n, ?_, sent⟩
      rw [hresult _ rfl, RetryPolicy.outcome_of_success (a := a.stamped elapsed n) hok]
    | expired limited noted => exact absurd noted (hunhurried.deadlines _)

end Client

end CatalogClient
