import CatalogClient.Pipeline.Schedule
import CatalogClient.Proofs.Pipeline.Traffic
/-!
The lock: those before it and the one who holds it are the tasks in the stages of a refresh, each of
them once, and whoever gets the lock from another is woken.
-/

namespace CatalogClient

namespace Turnstile

def inside (l : Turnstile) : List Nat := l.holder.toList ++ l.queue

/-- Nobody stands there twice, and nobody waits for a lock that is free. -/
structure Fair (l : Turnstile) : Prop where
  distinct : l.inside.Nodup
  led : l.holder = none → l.queue = []

theorem Fair.free : free.Fair := ⟨.nil, fun _ => rfl⟩

theorem mem_enter {l : Turnstile} {i j : Nat} :
    i ∈ (l.enter j).inside ↔ i ∈ l.inside ∨ i = j := by
  obtain ⟨holder, queue⟩ := l
  cases holder with
  | none =>
    simp only [enter, inside, Option.toList_none, Option.toList_some, List.nil_append,
      List.singleton_append, List.mem_cons]
    exact or_comm
  | some k =>
    simp only [enter, inside, Option.toList_some, List.mem_append, List.mem_singleton, or_assoc]

theorem Fair.enter {l : Turnstile} (h : l.Fair) {j : Nat} (hj : j ∉ l.inside) : (l.enter j).Fair := by
  obtain ⟨holder, queue⟩ := l
  cases holder with
  | none =>
    have hq : queue = [] := h.led rfl
    subst hq
    exact ⟨List.nodup_singleton j, fun hn => by cases hn⟩
  | some k =>
    refine ⟨?_, fun hn => by cases hn⟩
    have hd := h.distinct
    simp only [inside, Turnstile.enter, Option.toList_some] at hd hj ⊢
    rw [← List.append_assoc, List.nodup_append']
    refine ⟨hd, List.nodup_singleton j, ?_⟩
    intro i hi hij
    rw [List.mem_singleton.mp hij] at hi
    exact hj hi

theorem mem_leave {l : Turnstile} (h : l.Fair) {i j : Nat} :
    i ∈ (l.leave j).inside ↔ i ∈ l.inside ∧ i ≠ j := by
  obtain ⟨holder, queue⟩ := l
  have hd := h.distinct
  unfold leave
  split
  · rename_i hj
    cases hj
    simp only [inside, Option.toList_some, List.singleton_append, List.nodup_cons] at hd
    have hpass : (pass ⟨some j, queue⟩).inside = queue := by
      cases queue <;> rfl
    rw [hpass]
    simp only [inside, Option.toList_some, List.singleton_append, List.mem_cons]
    refine ⟨fun hi => ⟨.inr hi, fun hij => hd.1 (hij ▸ hi)⟩, ?_⟩
    rintro ⟨rfl | hi, hne⟩
    · exact absurd rfl hne
    · exact hi
  · rename_i hj
    have hj : holder ≠ some j := hj
    simp only [inside, List.mem_append, List.mem_filter, decide_eq_true_eq, Option.mem_toList]
    refine ⟨?_, ?_⟩
    · rintro (hi | ⟨hi, hne⟩)
      · exact ⟨.inl hi, fun hij => hj (hij ▸ hi)⟩
      · exact ⟨.inr hi, hne⟩
    · rintro ⟨hi | hi, hne⟩
      · exact .inl hi
      · exact .inr ⟨hi, hne⟩

theorem Fair.leave {l : Turnstile} (h : l.Fair) (j : Nat) : (l.leave j).Fair := by
  obtain ⟨holder, queue⟩ := l
  have hd := h.distinct
  unfold Turnstile.leave
  split
  · rename_i hj
    cases hj
    simp only [inside, Option.toList_some, List.singleton_append, List.nodup_cons] at hd
    cases queue with
    | nil => exact .free
    | cons k queue => exact ⟨hd.2, fun hn => by cases hn⟩
  · refine ⟨?_, ?_⟩
    · simp only [inside, List.nodup_append'] at hd ⊢
      exact ⟨hd.1, hd.2.1.filter _, fun i hi hq => hd.2.2 hi (List.mem_filter.mp hq).1⟩
    · intro hn
      have hq : queue = [] := h.led hn
      rw [hq]
      rfl

theorem leave_wakes {l : Turnstile} (h : l.Fair) {i j : Nat} (hi : i ∈ l.queue) (hne : i ≠ j) :
    i ∈ (l.leave j).queue ∨ i ∈ Schedule.passedOn l (l.leave j) j := by
  obtain ⟨holder, queue⟩ := l
  have hd := h.distinct
  unfold leave
  split
  · rename_i hj
    cases hj
    cases queue with
    | nil => cases hi
    | cons k queue =>
      have hk : k ≠ j := by
        rintro rfl
        simp [inside] at hd
      rcases List.mem_cons.mp hi with rfl | hi
      · right
        simp [Schedule.passedOn, pass, hne, hne.symm]
      · exact .inl hi
  · exact .inl (List.mem_filter.mpr ⟨hi, decide_eq_true hne⟩)

theorem enter_wakes {l : Turnstile} {i : Nat} (j : Nat) (hi : i ∈ l.queue) :
    i ∈ (l.enter j).queue := by
  obtain ⟨holder, queue⟩ := l
  cases holder with
  | none => exact hi
  | some k => exact List.mem_append_left _ hi

theorem holder_leave {l : Turnstile} {i j : Nat} (hi : l.holder = some i)
    (hne : i ≠ j) : (l.leave j).holder = some i := by
  unfold leave
  rw [if_neg (by rw [hi]; exact fun he => hne (Option.some.inj he))]
  exact hi

theorem holder_enter {l : Turnstile} {i : Nat} (j : Nat) (hi : l.holder = some i) :
    (l.enter j).holder = some i := by
  unfold enter
  split
  · rename_i hn
    rw [hi] at hn
    cases hn
  · exact hi

end Turnstile

theorem Schedule.length_passedOn_le (before after : Turnstile) (i : Nat) :
    (passedOn before after i).length ≤ 1 := by
  unfold passedOn
  split
  · exact Nat.zero_le _
  · cases after.holder <;> simp

namespace Stage

def isInside : Stage → Bool
  | .queued _ | .exchanging _ | .awaitingToken .. | .resting .. => true
  | _ => false

def holds : Stage → Bool
  | .exchanging _ | .awaitingToken .. | .resting .. => true
  | _ => false

theorem isInside_of_holds {s : Stage} (h : s.holds) : s.isInside := by
  cases s <;> simp_all [holds, isInside]

theorem holds_of_outside {s : Stage} (h : s.isInside = false) : s.holds = false := by
  cases s <;> simp_all [holds, isInside]

theorem outcome?_of_isInside {s : Stage} (h : s.isInside) : s.outcome? = none := by
  cases s <;> simp_all [isInside, outcome?]

end Stage

namespace Task

variable {σ : Type} {p : Peer σ} {c : Setup} {w w' : World σ} {t t' : Task}

theorem obtained_isInside (t : Task) (result : Except Failure Credential) :
    (t.obtained result).isInside = false := by
  obtain ⟨id, goal, started, deadline, stage, retry⟩ := t
  cases goal <;> cases result <;> rfl

theorem admitted_isInside (t : Task) : t.admitted.isInside = false := by
  obtain ⟨id, goal, started, deadline, stage, retry⟩ := t
  cases goal <;> rfl

theorem pause_isInside (wake : Instant) (delay : Span) :
    (if delay.isZero then .asking else .pausing wake : Stage).isInside = false := by
  split <;> rfl

theorem Asks.isInside {now : Instant} (h : t.Asks now) : t.stage.isInside = false := by
  rcases h with ⟨hs, -⟩ | ⟨wake, -, hs | hs⟩ <;> rw [hs] <;> rfl

/-- What a step does at the lock. -/
inductive Move.Passes (w w' : World σ) (t t' : Task) : Prop
  | stays (hl : w'.turnstile = w.turnstile) (hi : t'.stage.isInside = t.stage.isInside)
    (hh : t'.stage.holds → w.turnstile.holder = some t.id ∨ t.stage.holds)
  | enters (hl : w'.turnstile = w.turnstile.enter t.id) (hi : t.stage.isInside = false)
    (hi' : t'.stage.isInside) (hh : t'.stage.holds = false)
  | leaves (hl : w'.turnstile = w.turnstile.leave t.id) (hi' : t'.stage.isInside = false)

theorem Move.passes (h : t.Move p c w w' t') : Move.Passes w w' t t' := by
  have hout : ∀ {s : Stage}, s.isInside = false → ¬ s.holds := by
    intro s hs hh
    rw [Stage.isInside_of_holds hh] at hs
    cases hs
  cases h with
  | stray hs hg => exact .stays rfl (by rw [hs]; rfl) (fun hh => by cases hh)
  | refused ha hl => exact .stays rfl ha.isInside.symm (fun hh => by cases hh)
  | granted ha hl =>
    exact .stays rfl (t.admitted_isInside.trans ha.isInside.symm)
      (fun hh => absurd hh (hout t.admitted_isInside))
  | found hs hu =>
    exact .stays rfl ((t.obtained_isInside _).trans (by rw [hs]; rfl))
      (fun hh => absurd hh (hout (t.obtained_isInside _)))
  | lined hs hu => exact .enters rfl (by rw [hs]; rfl) rfl rfl
  | shared hs hh hu => exact .leaves rfl (t.obtained_isInside _)
  | sharedFailure hs hh hu hg hf => exact .leaves rfl (t.obtained_isInside _)
  | refresh hs hh hu hg => exact .stays rfl (by rw [hs]; rfl) (fun _ => .inl hh)
  | exchange he =>
    rcases he with hs | ⟨wake, -, hs⟩
    · exact .stays rfl (by rw [hs]; rfl) (fun _ => .inr (by rw [hs]; rfl))
    · exact .stays rfl (by rw [hs]; rfl) (fun _ => .inr (by rw [hs]; rfl))
  | issued hs hw hi => exact .leaves rfl (t.obtained_isInside _)
  | rest hs hw hf hr => exact .stays rfl (by rw [hs]; rfl) (fun _ => .inr (by rw [hs]; rfl))
  | fallBack hs hw hf hr => exact .stays rfl (by rw [hs]; rfl) (fun _ => .inr (by rw [hs]; rfl))
  | refreshFailed hs hw hr hf => exact .leaves rfl (t.obtained_isInside _)
  | send hs hg ha => exact .stays rfl (by rw [hs]; rfl) (fun hh => by cases hh)
  | succeed hs hw hg ha hok => exact .stays rfl (by rw [hs]; rfl) (fun hh => by cases hh)
  | fail hs hw hg hf hd => exact .stays rfl (by rw [hs]; rfl) (fun hh => by cases hh)
  | reject hs hw hg hf ha hr => exact .stays rfl (by rw [hs]; rfl) (fun hh => by cases hh)
  | slow hs hw hg hf hc hr hd =>
    exact .stays rfl ((pause_isInside _ _).trans (by rw [hs]; rfl))
      (fun hh => absurd hh (hout (pause_isInside _ _)))
  | retry hs hw hg hf hc hr hd =>
    exact .stays rfl ((pause_isInside _ _).trans (by rw [hs]; rfl))
      (fun hh => absurd hh (hout (pause_isInside _ _)))
  | idle hs hg =>
    rcases hs with hs | ⟨attempt, sent, wake, answer, hs⟩
    · exact .stays rfl (by rw [hs]; rfl) (fun hh => by cases hh)
    · exact .stays rfl (by rw [hs]; rfl) (fun hh => by cases hh)

end Task

namespace Traffic

variable {σ : Type} {p : Peer σ} {c : Setup}

/-- The lock and the stages of the tasks agree. -/
structure Guarded (s : Traffic σ) : Prop where
  sound : Sound s
  fair : s.world.turnstile.Fair
  present : ∀ i ∈ s.world.turnstile.inside, ∃ t ∈ s.tasks, t.id = i ∧ t.stage.isInside
  inside : ∀ t ∈ s.tasks, t.stage.isInside → t.id ∈ s.world.turnstile.inside
  holds : ∀ t ∈ s.tasks, t.stage.holds → s.world.turnstile.holder = some t.id

theorem Guarded.start {w : World σ} (h : w.turnstile = .free) : Guarded ⟨w, []⟩ := by
  refine ⟨Sound.start w, by rw [h]; exact .free, ?_, by simp, by simp⟩
  intro i hi
  change i ∈ w.turnstile.inside at hi
  rw [h] at hi
  cases hi

theorem Guarded.leave {w w' : World σ} {ts : List Task} {t t' : Task} (h : Guarded ⟨w, ts⟩)
    (hs : Sound ⟨w', put ts t'⟩) (hid : t'.id = t.id)
    (hl : w'.turnstile = w.turnstile.leave t.id) (hi' : t'.stage.isInside = false) :
    Guarded ⟨w', put ts t'⟩ := by
  have hfair := h.fair
  refine ⟨hs, hl ▸ hfair.leave t.id, ?_, ?_, ?_⟩
  · intro i hi
    change i ∈ w'.turnstile.inside at hi
    rw [hl, Turnstile.mem_leave hfair] at hi
    obtain ⟨u, hu, rfl, hin⟩ := h.present i hi.1
    exact ⟨u, mem_put_other hu (hid ▸ hi.2), rfl, hin⟩
  · intro u hu hin
    change u.id ∈ w'.turnstile.inside
    rcases mem_put hu with rfl | ⟨hu, hne⟩
    · rw [hi'] at hin
      cases hin
    · rw [hl, Turnstile.mem_leave hfair]
      exact ⟨h.inside u hu hin, hid ▸ hne⟩
  · intro u hu hh
    change w'.turnstile.holder = some u.id
    rcases mem_put hu with rfl | ⟨hu, hne⟩
    · rw [Stage.isInside_of_holds hh] at hi'
      cases hi'
    · rw [hl]
      exact Turnstile.holder_leave (h.holds u hu hh) (hid ▸ hne)

theorem Guarded.move {w w' : World σ} {ts : List Task} {t t' : Task} (h : Guarded ⟨w, ts⟩)
    (ht : t ∈ ts) (hm : t.Move p c w w' t') (hs : Sound ⟨w', put ts t'⟩) :
    Guarded ⟨w', put ts t'⟩ := by
  have hid := hm.id_eq
  have hfair := h.fair
  cases hm.passes with
  | stays hl hi hh =>
    refine ⟨hs, hl ▸ hfair, ?_, ?_, ?_⟩
    · intro i hin
      change i ∈ w'.turnstile.inside at hin
      rw [hl] at hin
      obtain ⟨u, hu, rfl, huin⟩ := h.present i hin
      by_cases hut : u.id = t.id
      · cases List.inj_on_of_nodup_map h.sound.distinct hu ht hut
        exact ⟨t', mem_put_self ht hid, hid, hi.trans huin⟩
      · exact ⟨u, mem_put_other hu (hid ▸ hut), rfl, huin⟩
    · intro u hu hin
      change u.id ∈ w'.turnstile.inside
      rw [hl]
      rcases mem_put hu with rfl | ⟨hu, -⟩
      · rw [hid]
        exact h.inside t ht (hi ▸ hin)
      · exact h.inside u hu hin
    · intro u hu hheld
      change w'.turnstile.holder = some u.id
      rw [hl]
      rcases mem_put hu with rfl | ⟨hu, -⟩
      · rw [hid]
        rcases hh hheld with hh | hh
        · exact hh
        · exact h.holds t ht hh
      · exact h.holds u hu hheld
  | enters hl hi hi' hh =>
    have hnot : t.id ∉ w.turnstile.inside := by
      intro hin
      obtain ⟨u, hu, hut, huin⟩ := h.present t.id hin
      cases List.inj_on_of_nodup_map h.sound.distinct hu ht hut
      rw [hi] at huin
      cases huin
    refine ⟨hs, hl ▸ hfair.enter hnot, ?_, ?_, ?_⟩
    · intro i hin
      change i ∈ w'.turnstile.inside at hin
      rw [hl, Turnstile.mem_enter] at hin
      rcases hin with hin | rfl
      · obtain ⟨u, hu, rfl, huin⟩ := h.present i hin
        exact ⟨u, mem_put_other hu (fun he => hnot (hid ▸ he ▸ hin)), rfl, huin⟩
      · exact ⟨t', mem_put_self ht hid, hid, hi'⟩
    · intro u hu hin
      change u.id ∈ w'.turnstile.inside
      rw [hl, Turnstile.mem_enter]
      rcases mem_put hu with rfl | ⟨hu, -⟩
      · exact .inr hid
      · exact .inl (h.inside u hu hin)
    · intro u hu hheld
      change w'.turnstile.holder = some u.id
      rcases mem_put hu with rfl | ⟨hu, -⟩
      · rw [hh] at hheld
        cases hheld
      · rw [hl]
        exact Turnstile.holder_enter t.id (h.holds u hu hheld)
  | leaves hl hi' => exact h.leave hs hid hl hi'

theorem Guarded.begin {w : World σ} {ts : List Task} (h : Guarded ⟨w, ts⟩) (goal : Goal)
    (deadline : Option Span)
    (hs : Sound ⟨{ w with tasks := w.tasks + 1 }, ts ++ [Task.start w w.tasks goal deadline]⟩) :
    Guarded ⟨{ w with tasks := w.tasks + 1 }, ts ++ [Task.start w w.tasks goal deadline]⟩ := by
  have hout : (Task.start w w.tasks goal deadline).stage.isInside = false := by
    cases goal <;> rfl
  refine ⟨hs, h.fair, ?_, ?_, ?_⟩
  · intro i hin
    obtain ⟨u, hu, rfl, huin⟩ := h.present i hin
    exact ⟨u, List.mem_append_left _ hu, rfl, huin⟩
  · intro u hu hin
    rcases List.mem_append.mp hu with hu | hu
    · exact h.inside u hu hin
    · rw [List.mem_singleton.mp hu, hout] at hin
      cases hin
  · intro u hu hheld
    rcases List.mem_append.mp hu with hu | hu
    · exact h.holds u hu hheld
    · rw [List.mem_singleton.mp hu] at hheld
      rw [Stage.isInside_of_holds hheld] at hout
      cases hout

theorem Guarded.drop {w : World σ} {ts : List Task} (h : Guarded ⟨w, ts⟩) (t : Task)
    (hs : Sound ⟨t.release w, without ts t⟩) : Guarded ⟨t.release w, without ts t⟩ := by
  have hfair := h.fair
  refine ⟨hs, hfair.leave t.id, ?_, ?_, ?_⟩
  · intro i hin
    obtain ⟨hin, hne⟩ := (Turnstile.mem_leave hfair).mp hin
    obtain ⟨u, hu, rfl, huin⟩ := h.present i hin
    exact ⟨u, mem_without.mpr ⟨hu, hne⟩, rfl, huin⟩
  · intro u hu hin
    obtain ⟨hu, hne⟩ := mem_without.mp hu
    exact (Turnstile.mem_leave hfair).mpr ⟨h.inside u hu hin, hne⟩
  · intro u hu hheld
    obtain ⟨hu, hne⟩ := mem_without.mp hu
    exact Turnstile.holder_leave (h.holds u hu hheld) hne

theorem Guarded.step {s s' : Traffic σ} (h : Guarded s) (hstep : Step p c s s') : Guarded s' := by
  have hs := h.sound.step hstep
  cases hstep with
  | begin w ts goal deadline => exact h.begin goal deadline hs
  | move ht hm => exact h.move ht (Task.step_move hm) hs
  | expire ht hu hd => exact h.leave hs rfl rfl rfl
  | drop ht => exact h.drop _ hs
  | elapse _ | date _ _ _ | limit _ | invalidate _ _ _ =>
    exact ⟨hs, h.fair, h.present, h.inside, h.holds⟩

theorem Guarded.reaches {s s' : Traffic σ} (h : Guarded s) (hr : Reaches p c s s') :
    Guarded s' := by
  induction hr with
  | refl => exact h
  | tail _ hstep ih => exact ih.step hstep

theorem Guarded.free_of_done {s : Traffic σ} (h : Guarded s)
    (hd : ∀ t ∈ s.tasks, t.stage.outcome?.isSome) : s.world.turnstile = .free := by
  have hnone : ∀ i, i ∉ s.world.turnstile.inside := by
    intro i hi
    obtain ⟨t, ht, rfl, hin⟩ := h.present i hi
    have hdone := hd t ht
    rw [Stage.outcome?_of_isInside hin] at hdone
    cases hdone
  have hempty := List.eq_nil_iff_forall_not_mem.mpr hnone
  obtain ⟨hheld, hqueue⟩ := List.append_eq_nil_iff.mp hempty
  cases hl : s.world.turnstile with
  | mk holder queue =>
    rw [hl] at hheld hqueue
    cases holder with
    | none => exact congrArg _ hqueue
    | some i => cases hheld

theorem Guarded.clear {w : World σ} {ts : List Task} (h : Guarded ⟨w, ts⟩) (p : Peer σ) (c : Setup) :
    Reaches p c ⟨w, ts⟩ ⟨{ w with turnstile := .free }, []⟩ := by
  generalize hn : ts.length = n
  induction n generalizing w ts with
  | zero =>
    cases List.length_eq_zero_iff.mp hn
    have hfree : w.turnstile = .free := h.free_of_done (by simp)
    rw [← hfree]
    exact .refl
  | succ n ih =>
    cases ts with
    | nil => cases hn
    | cons t ts =>
      have hdrop : Step p c ⟨w, t :: ts⟩ ⟨t.release w, without (t :: ts) t⟩ :=
        .drop List.mem_cons_self
      have hrest : without (t :: ts) t = ts := by
        have hd := List.nodup_cons.mp h.sound.distinct
        refine (List.filter_cons_of_neg (by simp)).trans (List.filter_eq_self.mpr ?_)
        intro u hu
        exact decide_eq_true fun he => hd.1 (List.mem_map.mpr ⟨u, hu, he⟩)
      have hg := h.step hdrop
      rw [hrest] at hdrop hg
      exact .head hdrop (ih hg (Nat.succ.inj hn))

end Traffic

end CatalogClient
