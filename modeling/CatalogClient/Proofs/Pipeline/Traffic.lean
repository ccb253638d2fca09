import CatalogClient.Pipeline.Schedule
import CatalogClient.Proofs.Limiter.History
import CatalogClient.Proofs.Pipeline.Move
import Mathlib.Logic.Relation
/-!
Tasks of one client whose steps follow one another in any order, while time passes, tasks are given up,
and others use the limiter and reject tokens. What all of these keep, every schedule keeps.
-/

namespace CatalogClient

structure Traffic (σ : Type) where
  world : World σ
  /-- The tasks that have begun. -/
  tasks : List Task

namespace Traffic

variable {σ : Type}

def put (ts : List Task) (t : Task) : List Task := ts.map fun u => if u.id = t.id then t else u

def without (ts : List Task) (t : Task) : List Task := ts.filter fun u => u.id ≠ t.id

inductive Step (p : Peer σ) (c : Setup) : Traffic σ → Traffic σ → Prop
  | begin (w : World σ) (ts : List Task) (goal : Goal) (deadline : Option Span) :
    Step p c ⟨w, ts⟩
      ⟨{ w with tasks := w.tasks + 1 }, ts ++ [Task.start w w.tasks goal deadline]⟩
  | move {w w' : World σ} {ts : List Task} {t t' : Task} (ht : t ∈ ts)
    (h : t.step p c w = .ok (some (w', t'))) : Step p c ⟨w, ts⟩ ⟨w', put ts t'⟩
  | expire {w : World σ} {ts : List Task} {t : Task} (ht : t ∈ ts)
    (hu : t.stage.outcome? = none) (hd : t.deadline.any (· ≤ w.now)) :
    Step p c ⟨w, ts⟩ ⟨(t.expire w).1, put ts (t.expire w).2⟩
  | drop {w : World σ} {ts : List Task} {t : Task} (ht : t ∈ ts) :
    Step p c ⟨w, ts⟩ ⟨t.release w, without ts t⟩
  | elapse {w : World σ} {ts : List Task} {time : Instant} (h : w.now ≤ time) :
    Step p c ⟨w, ts⟩ ⟨{ w with now := time }, ts⟩
  /-- The calendar goes by a clock of its own. -/
  | date (w : World σ) (ts : List Task) (date : UtcTime) :
    Step p c ⟨w, ts⟩ ⟨{ w with date := date }, ts⟩
  | limit {w : World σ} {ts : List Task} {a : LimiterAct} {mark : Option LimiterMark} {l : Limiter}
    (h : w.limiter.act w.now a = .ok (mark, l)) : Step p c ⟨w, ts⟩ ⟨{ w with limiter := l }, ts⟩
  | invalidate (w : World σ) (ts : List Task) (token : String) :
    Step p c ⟨w, ts⟩ ⟨w.invalidate token, ts⟩

def Reaches (p : Peer σ) (c : Setup) : Traffic σ → Traffic σ → Prop :=
  Relation.ReflTransGen (Step p c)

/-- What holds of the world, and of the world and every task, whatever happens next. -/
structure Kept (p : Peer σ) (c : Setup) (I : World σ → Prop) (J : World σ → Task → Prop) : Prop where
  begin : ∀ w goal deadline, I w → I { w with tasks := w.tasks + 1 } ∧
    J { w with tasks := w.tasks + 1 } (Task.start w w.tasks goal deadline) ∧
    ∀ u, J w u → J { w with tasks := w.tasks + 1 } u
  move : ∀ w t w' t', I w → J w t → t.Move p c w w' t' →
    I w' ∧ J w' t' ∧ ∀ u, u.id ≠ t.id → J w u → J w' u
  expire : ∀ w t, I w → J w t → t.stage.outcome? = none → t.deadline.any (· ≤ w.now) →
    I (t.expire w).1 ∧ J (t.expire w).1 (t.expire w).2 ∧
    ∀ u, u.id ≠ t.id → J w u → J (t.expire w).1 u
  drop : ∀ w t, I w → J w t → I (t.release w) ∧ ∀ u, u.id ≠ t.id → J w u → J (t.release w) u
  elapse : ∀ w time, I w → w.now ≤ time → I { w with now := time } ∧
    ∀ u, J w u → J { w with now := time } u
  date : ∀ w date, I w → I { w with date := date } ∧ ∀ u, J w u → J { w with date := date } u
  limit : ∀ w a mark l, I w → w.limiter.act w.now a = .ok (mark, l) →
    I { w with limiter := l } ∧ ∀ u, J w u → J { w with limiter := l } u
  invalidate : ∀ w token, I w → I (w.invalidate token) ∧ ∀ u, J w u → J (w.invalidate token) u

theorem mem_put {ts : List Task} {t u : Task} (h : u ∈ put ts t) :
    u = t ∨ u ∈ ts ∧ u.id ≠ t.id := by
  obtain ⟨v, hv, rfl⟩ := List.mem_map.mp h
  by_cases he : v.id = t.id
  · rw [if_pos he]
    exact .inl rfl
  · rw [if_neg he]
    exact .inr ⟨hv, he⟩

theorem mem_without {ts : List Task} {t u : Task} : u ∈ without ts t ↔ u ∈ ts ∧ u.id ≠ t.id := by
  simp [without]

theorem Kept.step {p : Peer σ} {c : Setup} {I : World σ → Prop} {J : World σ → Task → Prop}
    (k : Kept p c I J) {s s' : Traffic σ} (h : Step p c s s') (hi : I s.world)
    (hj : ∀ t ∈ s.tasks, J s.world t) : I s'.world ∧ ∀ t ∈ s'.tasks, J s'.world t := by
  cases h with
  | begin w ts goal deadline =>
    obtain ⟨hi', hnew, hold⟩ := k.begin w goal deadline hi
    refine ⟨hi', ?_⟩
    intro u hu
    rcases List.mem_append.mp hu with hu | hu
    · exact hold u (hj u hu)
    · cases List.mem_singleton.mp hu
      exact hnew
  | @move w w' ts t t' ht h =>
    have hm := Task.step_move h
    obtain ⟨hi', hnew, hold⟩ := k.move w t w' t' hi (hj t ht) hm
    refine ⟨hi', ?_⟩
    intro u hu
    rcases mem_put hu with rfl | ⟨hu, hne⟩
    · exact hnew
    · exact hold u (hm.id_eq ▸ hne) (hj u hu)
  | @expire w ts t ht hu hd =>
    obtain ⟨hi', hnew, hold⟩ := k.expire w t hi (hj t ht) hu hd
    refine ⟨hi', ?_⟩
    intro u hu
    rcases mem_put hu with rfl | ⟨hu, hne⟩
    · exact hnew
    · exact hold u hne (hj u hu)
  | @drop w ts t ht =>
    obtain ⟨hi', hold⟩ := k.drop w t hi (hj t ht)
    refine ⟨hi', ?_⟩
    intro u hu
    obtain ⟨hu, hne⟩ := mem_without.mp hu
    exact hold u hne (hj u hu)
  | elapse h =>
    obtain ⟨hi', hold⟩ := k.elapse _ _ hi h
    exact ⟨hi', fun u hu => hold u (hj u hu)⟩
  | date w ts date =>
    obtain ⟨hi', hold⟩ := k.date w date hi
    exact ⟨hi', fun u hu => hold u (hj u hu)⟩
  | limit h =>
    obtain ⟨hi', hold⟩ := k.limit _ _ _ _ hi h
    exact ⟨hi', fun u hu => hold u (hj u hu)⟩
  | invalidate w ts token =>
    obtain ⟨hi', hold⟩ := k.invalidate w token hi
    exact ⟨hi', fun u hu => hold u (hj u hu)⟩

theorem Kept.reaches {p : Peer σ} {c : Setup} {I : World σ → Prop} {J : World σ → Task → Prop}
    (k : Kept p c I J) {s s' : Traffic σ} (h : Reaches p c s s') (hi : I s.world)
    (hj : ∀ t ∈ s.tasks, J s.world t) : I s'.world ∧ ∀ t ∈ s'.tasks, J s'.world t := by
  induction h with
  | refl => exact ⟨hi, hj⟩
  | tail _ hs ih => exact k.step hs ih.1 ih.2

theorem Kept.ofTask {p : Peer σ} {c : Setup} {Q : Task → Prop}
    (start : ∀ (w : World σ) goal deadline, Q (Task.start w w.tasks goal deadline))
    (move : ∀ (w : World σ) t w' t', Q t → t.Move p c w w' t' → Q t')
    (expire : ∀ (w : World σ) t, Q t → t.stage.outcome? = none → t.deadline.any (· ≤ w.now) →
      Q (t.expire w).2) :
    Kept p c (fun _ => True) (fun _ => Q) where
  begin w goal deadline _ := ⟨trivial, start w goal deadline, fun _ h => h⟩
  move w t w' t' _ h hm := ⟨trivial, move w t w' t' h hm, fun _ _ h => h⟩
  expire w t _ h hu hd := ⟨trivial, expire w t h hu hd, fun _ _ h => h⟩
  drop _ _ _ _ := ⟨trivial, fun _ _ h => h⟩
  elapse _ _ _ _ := ⟨trivial, fun _ h => h⟩
  date _ _ _ := ⟨trivial, fun _ h => h⟩
  limit _ _ _ _ _ _ := ⟨trivial, fun _ h => h⟩
  invalidate _ _ _ := ⟨trivial, fun _ h => h⟩

theorem Kept.and {I I' : World σ → Prop} {J J' : World σ → Task → Prop} (k : Kept p c I J)
    (k' : Kept p c I' J') :
    Kept p c (fun w => I w ∧ I' w) (fun w t => J w t ∧ J' w t) where
  begin w goal deadline h := by
    obtain ⟨hi, hnew, hold⟩ := k.begin w goal deadline h.1
    obtain ⟨hi', hnew', hold'⟩ := k'.begin w goal deadline h.2
    exact ⟨⟨hi, hi'⟩, ⟨hnew, hnew'⟩, fun u hu => ⟨hold u hu.1, hold' u hu.2⟩⟩
  move w t w' t' h ht hm := by
    obtain ⟨hi, hnew, hold⟩ := k.move w t w' t' h.1 ht.1 hm
    obtain ⟨hi', hnew', hold'⟩ := k'.move w t w' t' h.2 ht.2 hm
    exact ⟨⟨hi, hi'⟩, ⟨hnew, hnew'⟩, fun u hne hu => ⟨hold u hne hu.1, hold' u hne hu.2⟩⟩
  expire w t h ht hu hd := by
    obtain ⟨hi, hnew, hold⟩ := k.expire w t h.1 ht.1 hu hd
    obtain ⟨hi', hnew', hold'⟩ := k'.expire w t h.2 ht.2 hu hd
    exact ⟨⟨hi, hi'⟩, ⟨hnew, hnew'⟩, fun u hne hu => ⟨hold u hne hu.1, hold' u hne hu.2⟩⟩
  drop w t h ht := by
    obtain ⟨hi, hold⟩ := k.drop w t h.1 ht.1
    obtain ⟨hi', hold'⟩ := k'.drop w t h.2 ht.2
    exact ⟨⟨hi, hi'⟩, fun u hne hu => ⟨hold u hne hu.1, hold' u hne hu.2⟩⟩
  elapse w time h hle := by
    obtain ⟨hi, hold⟩ := k.elapse w time h.1 hle
    obtain ⟨hi', hold'⟩ := k'.elapse w time h.2 hle
    exact ⟨⟨hi, hi'⟩, fun u hu => ⟨hold u hu.1, hold' u hu.2⟩⟩
  date w date h := by
    obtain ⟨hi, hold⟩ := k.date w date h.1
    obtain ⟨hi', hold'⟩ := k'.date w date h.2
    exact ⟨⟨hi, hi'⟩, fun u hu => ⟨hold u hu.1, hold' u hu.2⟩⟩
  limit w a mark l h ha := by
    obtain ⟨hi, hold⟩ := k.limit w a mark l h.1 ha
    obtain ⟨hi', hold'⟩ := k'.limit w a mark l h.2 ha
    exact ⟨⟨hi, hi'⟩, fun u hu => ⟨hold u hu.1, hold' u hu.2⟩⟩
  invalidate w token h := by
    obtain ⟨hi, hold⟩ := k.invalidate w token h.1
    obtain ⟨hi', hold'⟩ := k'.invalidate w token h.2
    exact ⟨⟨hi, hi'⟩, fun u hu => ⟨hold u hu.1, hold' u hu.2⟩⟩

theorem ids_put (ts : List Task) (t : Task) : (put ts t).map (·.id) = ts.map (·.id) := by
  rw [put, List.map_map]
  refine List.map_congr_left ?_
  intro u _
  by_cases he : u.id = t.id
  · simp [he]
  · simp [he]

theorem map_put {α : Type} {f : Task → α} {ts : List Task} (hn : (ts.map (·.id)).Nodup)
    {t t' : Task} (ht : t ∈ ts) (hid : t'.id = t.id) (hf : f t' = f t) :
    (put ts t').map f = ts.map f := by
  rw [put, List.map_map]
  refine List.map_congr_left ?_
  intro u hu
  by_cases he : u.id = t'.id
  · cases List.inj_on_of_nodup_map hn hu ht (he.trans hid)
    simp [he, hf]
  · simp [he]

theorem put_put (ts : List Task) {t u : Task} (h : u.id = t.id) : put (put ts t) u = put ts u := by
  rw [put, put, put, List.map_map]
  refine List.map_congr_left ?_
  intro v _
  by_cases he : v.id = t.id
  · simp [he, h]
  · simp [he, h]

theorem mem_put_self {ts : List Task} {t u : Task} (ht : t ∈ ts) (h : u.id = t.id) :
    u ∈ put ts u :=
  List.mem_map.mpr ⟨t, ht, if_pos h.symm⟩

theorem mem_put_other {ts : List Task} {t u : Task} (hu : u ∈ ts) (h : u.id ≠ t.id) :
    u ∈ put ts t :=
  List.mem_map.mpr ⟨u, hu, if_neg h⟩

theorem put_self {ts : List Task} (hn : (ts.map (·.id)).Nodup) {t : Task} (ht : t ∈ ts) :
    put ts t = ts := by
  refine (List.map_congr_left ?_).trans (List.map_id ts)
  intro u hu
  by_cases he : u.id = t.id
  · rw [if_pos he]
    exact (List.inj_on_of_nodup_map hn hu ht he).symm
  · rw [if_neg he]
    rfl

theorem put_of_notMem {ts : List Task} {t : Task} (h : t.id ∉ ts.map (·.id)) : put ts t = ts := by
  refine (List.map_congr_left ?_).trans (List.map_id ts)
  intro u hu
  exact if_neg fun (he : u.id = t.id) => h (he ▸ List.mem_map_of_mem hu)

theorem put_append_of_notMem {ts us : List Task} {t : Task} (h : t.id ∉ ts.map (·.id)) :
    put (ts ++ us) t = ts ++ put us t := by
  rw [put, List.map_append]
  exact congrArg (· ++ put us t) (put_of_notMem h)

structure Sound (s : Traffic σ) : Prop where
  distinct : (s.tasks.map (·.id)).Nodup
  begun : ∀ t ∈ s.tasks, t.id < s.world.tasks

theorem Sound.step {p : Peer σ} {c : Setup} {s s' : Traffic σ} (hs : Sound s)
    (h : Step p c s s') : Sound s' := by
  cases h with
  | begin w ts goal deadline =>
    refine ⟨?_, ?_⟩
    · rw [List.map_append, List.nodup_append']
      refine ⟨hs.distinct, List.nodup_singleton _, ?_⟩
      intro i hi hw
      obtain ⟨t, ht, rfl⟩ := List.mem_map.mp hi
      have hlt : t.id < w.tasks := hs.begun t ht
      have heq : t.id = w.tasks := List.mem_singleton.mp hw
      omega
    · intro u hu
      rcases List.mem_append.mp hu with hu | hu
      · exact Nat.lt_succ_of_lt (hs.begun u hu)
      · cases List.mem_singleton.mp hu
        exact Nat.lt_succ_self _
  | @move w w' ts t t' ht h =>
    have hm := Task.step_move h
    refine ⟨by rw [ids_put]; exact hs.distinct, ?_⟩
    intro u hu
    change u.id < w'.tasks
    rw [hm.tasks_eq]
    rcases mem_put hu with rfl | ⟨hu, -⟩
    · rw [hm.id_eq]
      exact hs.begun t ht
    · exact hs.begun u hu
  | @expire w ts t ht hu hd =>
    refine ⟨by rw [ids_put]; exact hs.distinct, ?_⟩
    intro u hu
    rcases mem_put hu with rfl | ⟨hu, -⟩
    · exact hs.begun t ht
    · exact hs.begun u hu
  | @drop w ts t ht =>
    refine ⟨?_, fun u hu => hs.begun u (mem_without.mp hu).1⟩
    exact hs.distinct.sublist (List.filter_sublist.map _)
  | elapse h => exact ⟨hs.distinct, hs.begun⟩
  | date w ts date => exact ⟨hs.distinct, hs.begun⟩
  | limit h => exact ⟨hs.distinct, hs.begun⟩
  | invalidate w ts token => exact ⟨hs.distinct, hs.begun⟩

theorem Sound.reaches {p : Peer σ} {c : Setup} {s s' : Traffic σ} (hs : Sound s)
    (h : Reaches p c s s') : Sound s' := by
  induction h with
  | refl => exact hs
  | tail _ h ih => exact ih.step h

theorem Sound.start (w : World σ) : Sound ⟨w, []⟩ := ⟨.nil, by simp⟩

end Traffic

end CatalogClient
