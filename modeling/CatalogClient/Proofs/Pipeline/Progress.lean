import CatalogClient.Proofs.Pipeline.Effort
import CatalogClient.Proofs.Pipeline.Guard
import CatalogClient.Proofs.Pipeline.Runs
import Mathlib.Algebra.Order.BigOperators.Group.List
import Mathlib.Algebra.Order.Group.Nat
import Mathlib.Algebra.Ring.Nat
/-!
The work that tasks have before them, which each of their steps lowers, and what a task waits for that
cannot go on.
-/

namespace CatalogClient

open Schedule (taskSteps)

namespace Traffic

theorem length_put (ts : List Task) (t : Task) : (put ts t).length = ts.length := List.length_map _

theorem sum_put {ts : List Task} (hn : (ts.map (·.id)).Nodup) {t t' : Task} (ht : t ∈ ts)
    (hid : t'.id = t.id) {f f' : Task → Nat} (hf : ∀ u ∈ ts, u.id ≠ t.id → f' u ≤ f u) {d : Nat}
    (hd : f' t' + d ≤ f t) : ((put ts t').map f').sum + d ≤ (ts.map f).sum := by
  induction ts with
  | nil => cases ht
  | cons u ts ih =>
    simp only [List.map_cons, List.nodup_cons] at hn
    simp only [put, List.map_cons, List.sum_cons]
    rcases List.mem_cons.mp ht with rfl | ht
    · have hsame : put ts t' = ts := put_of_notMem (hid ▸ hn.1)
      have hle : (ts.map f').sum ≤ (ts.map f).sum := by
        refine List.sum_le_sum fun v hv => hf v (List.mem_cons_of_mem _ hv) ?_
        exact fun he => hn.1 (he ▸ List.mem_map_of_mem hv)
      rw [if_pos hid.symm]
      change f' t' + ((put ts t').map f').sum + d ≤ _
      rw [hsame]
      omega
    · have hne : u.id ≠ t.id := fun he => hn.1 (he ▸ List.mem_map_of_mem ht)
      have hu := hf u List.mem_cons_self hne
      have hrest := ih hn.2 ht fun v hv => hf v (List.mem_cons_of_mem _ hv)
      rw [if_neg (hid ▸ hne)]
      change f' u + ((put ts t').map f').sum + d ≤ _
      omega

/-- The steps and refusals that tasks have before them. A step may bring back the refusals of all. -/
def work (m n : Nat) (l : Limiter) (ts : List Task) : Nat :=
  (3 * n + 1) * (ts.map (·.effort m)).sum + (ts.map (·.refusals l)).sum

theorem sum_refusals_le (l : Limiter) (ts : List Task) :
    (ts.map (·.refusals l)).sum ≤ 3 * ts.length := by
  induction ts with
  | nil => exact Nat.le_refl _
  | cons t ts ih =>
    have ht := t.refusals_le l
    simp only [List.map_cons, List.sum_cons, List.length_cons]
    omega

theorem work_lt_of_effort {m n : Nat} {l l' : Limiter} {ts ts' : List Task} (hn : ts'.length ≤ n)
    (h : (ts'.map (·.effort m)).sum + 1 ≤ (ts.map (·.effort m)).sum) :
    work m n l' ts' < work m n l ts := by
  have hr := sum_refusals_le l' ts'
  calc work m n l' ts'
      ≤ (3 * n + 1) * (ts'.map (·.effort m)).sum + 3 * n := by
        unfold work
        omega
    _ < (3 * n + 1) * ((ts'.map (·.effort m)).sum + 1) := by
        rw [Nat.mul_succ]
        omega
    _ ≤ (3 * n + 1) * (ts.map (·.effort m)).sum := Nat.mul_le_mul_left _ h
    _ ≤ work m n l ts := Nat.le_add_right _ _

section

variable {σ : Type} {p : Peer σ} {c : Setup} {n : Nat} {w w' : World σ} {ts : List Task}
  {t t' : Task}

theorem work_move_lt (hs : Sound ⟨w, ts⟩) (hl : w.limiter.Bounded) (ht : t ∈ ts)
    (hn : ts.length ≤ n) (hm : t.Move p c w w' t') :
    work c.policy.maxRetries n w'.limiter (put ts t') < work c.policy.maxRetries n w.limiter ts := by
  rcases hm.effort_lt with hlt | ⟨heq, ha, d, l, hgrant, rfl, hstage⟩
  · refine work_lt_of_effort (by rwa [length_put]) ?_
    exact sum_put hs.distinct ht hm.id_eq (fun u _ _ => Nat.le_refl _) hlt
  -- A refusal takes no effort, but one refusal less is ahead of this task, and none more of the others.
  · obtain ⟨hless, hmono⟩ := Limiter.refusals_refused hl hgrant
    have hown : t'.refusals l + 1 ≤ t.refusals w.limiter := by
      have hnew : t'.refusals l = l.refusals (w.now.timer d) := by
        rw [Task.refusals, hstage]
      rw [hnew]
      rcases ha with ⟨hs, -⟩ | ⟨wake, hwake, hs | hs⟩
      · have := l.refusals_le (w.now.timer d)
        simp only [Task.refusals, hs]
        omega
      · simpa only [Task.refusals, hs] using Nat.succ_le_of_lt (hless wake hwake)
      · have := l.refusals_le (w.now.timer d)
        simp only [Task.refusals, hs]
        omega
    have hothers : ∀ u : Task, u.refusals l ≤ u.refusals w.limiter := by
      intro u
      unfold Task.refusals
      split
      · exact hmono _
      · exact Nat.le_refl _
    have heffort := sum_put (f := (·.effort c.policy.maxRetries)) hs.distinct ht hm.id_eq
      (fun u _ _ => Nat.le_refl _) (d := 0) (Nat.le_of_eq heq)
    have hrefusals := sum_put hs.distinct ht hm.id_eq (fun u _ _ => hothers u) hown
    exact Nat.add_lt_add_of_le_of_lt (Nat.mul_le_mul_left _ heffort) hrefusals

theorem work_expire_lt (hs : Sound ⟨w, ts⟩) (ht : t ∈ ts) (hn : ts.length ≤ n)
    (hu : t.stage.outcome? = none) (m : Nat) :
    work m n (t.expire w).1.limiter (put ts (t.expire w).2) < work m n w.limiter ts := by
  refine work_lt_of_effort (by rwa [length_put]) ?_
  have hid : (t.expire w).2.id = t.id := rfl
  refine sum_put hs.distinct ht hid (fun u _ _ => Nat.le_refl _) ?_
  have hpos := t.effort_pos m hu
  have hzero : (t.expire w).2.effort m = 0 := by
    simp [Task.expire, Task.effort, Stage.outcome?, Stage.steps]
  rw [hzero]
  omega

theorem work_pos (m : Nat) {l : Limiter} (ht : t ∈ ts) (hu : t.stage.outcome? = none) :
    0 < work m n l ts := by
  have hpos := t.effort_pos m hu
  have hle := List.single_le_sum (l := ts.map (·.effort m)) (fun _ _ => Nat.zero_le _) _
    (List.mem_map_of_mem ht)
  have hsum : 0 < (ts.map (·.effort m)).sum := Nat.lt_of_lt_of_le hpos hle
  have hmul := Nat.mul_pos (Nat.succ_pos (3 * n)) hsum
  exact Nat.lt_of_lt_of_le hmul (Nat.le_add_right _ _)

theorem Reaches.bounded {s s' : Traffic σ} (hr : Reaches p c s s') (hl : s.world.limiter.Bounded) :
    s'.world.limiter.Bounded := by
  induction hr with
  | refl => exact hl
  | tail _ hstep ih =>
    cases hstep with
    | move ht h => exact (Task.step_move h).bounded ih
    | limit h => exact ih.act h
    | _ => exact ih

end

end Traffic

namespace Task

variable {σ : Type} {p : Peer σ} {c : Setup} {w : World σ} {t : Task}

theorem step_done {o : Outcome} (hs : t.stage = .done o) : t.step p c w = .ok none := by
  simp only [step, hs]
  rfl

theorem ask_ne_wait : t.ask w ≠ .ok none := by
  unfold ask
  split
  · simp
  · simp [go]
  · split <;> simp [go]

theorem obtain_ne_wait (result : Except Failure Credential) : t.obtain w result ≠ .ok none := by
  rw [obtain_eq]
  simp

theorem issue_ne_wait (r : Refresh) (answer : Except Failure TokenGrant) :
    t.issue p c w r answer ≠ .ok none := by
  unfold issue
  cases answer with
  | ok token =>
    simp only
    split
    · rw [conclude_eq]
      simp
    · simp
  | error f =>
    simp only [exchangeFailed]
    split
    · simp [go]
    · split
      · simp [go]
      · rw [conclude_eq]
        simp

theorem decide_ne_wait (credential : Credential) (attempt : Nat) (sent : Instant)
    (answer : Except Failure Response) : t.decide p c w credential attempt sent answer ≠ .ok none := by
  by_cases hg : ∃ r url, t.goal = .call r url
  · obtain ⟨r, url, hg⟩ := hg
    rw [decide_eq hg]
    unfold heed
    split
    · simp [go]
    · simp [go]
    · split <;> simp [again, go]
  · unfold decide
    split
    · rename_i r url he
      exact absurd ⟨r, url, he⟩ hg
    · simp [go]

theorem step_wait (h : t.step p c w = .ok none) :
    t.stage.outcome?.isSome ∨ (∃ wake, t.stage.wake? = some wake ∧ w.now < wake) ∨
      ∃ observed, t.stage = .queued observed ∧ w.turnstile.holder ≠ some t.id := by
  unfold step at h
  cases hs : t.stage with
  | asking =>
    simp only [hs] at h
    split at h
    · cases h
    · exact absurd h ask_ne_wait
  | admitting wake =>
    simp only [hs] at h
    split at h
    · exact absurd h ask_ne_wait
    · rename_i hlt
      exact .inr (.inl ⟨wake, rfl, Nat.lt_of_not_le hlt⟩)
  | seeking =>
    simp only [hs, seek] at h
    split at h
    · exact absurd h (obtain_ne_wait _)
    · cases h
  | queued observed =>
    refine .inr (.inr ⟨observed, rfl, ?_⟩)
    intro hh
    simp only [hs, enter, hh, ne_eq, not_true_eq_false, if_false] at h
    split at h
    · exact absurd h (obtain_ne_wait _)
    · split at h
      · exact absurd h (obtain_ne_wait _)
      · cases h
  | exchanging r =>
    simp only [hs] at h
    cases h
  | awaitingToken r wake answer =>
    simp only [hs] at h
    split at h
    · exact absurd h (issue_ne_wait r answer)
    · rename_i hlt
      exact .inr (.inl ⟨wake, rfl, Nat.lt_of_not_le hlt⟩)
  | resting r wake =>
    simp only [hs] at h
    split at h
    · cases h
    · rename_i hlt
      exact .inr (.inl ⟨wake, rfl, Nat.lt_of_not_le hlt⟩)
  | sending credential =>
    simp only [hs, send] at h
    split at h
    · split at h <;> cases h
    · cases h
  | awaitingAnswer credential attempt sent wake answer =>
    simp only [hs] at h
    split at h
    · exact absurd h (decide_ne_wait credential attempt sent answer)
    · rename_i hlt
      exact .inr (.inl ⟨wake, rfl, Nat.lt_of_not_le hlt⟩)
  | pausing wake =>
    simp only [hs] at h
    split at h
    · exact absurd h ask_ne_wait
    · rename_i hlt
      exact .inr (.inl ⟨wake, rfl, Nat.lt_of_not_le hlt⟩)
  | done o => exact .inl rfl

end Task

end CatalogClient
