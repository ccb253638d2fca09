import CatalogClient.Proofs.Limiter.Earliest
import Mathlib.Data.Prod.Lex
import Mathlib.Logic.Relation
/-!
Callers in line for the slots of one limiter. Whoever is refused waits exactly as long as it was told
and asks again, in whatever order, while others take slots and impose pauses. Nobody sleeps past the
instant at which a slot can be had, and those who come together are served evenly.
-/

namespace CatalogClient

structure Lineup where
  now : Instant
  limiter : Limiter
  /-- When each of those who wait asks again. -/
  waiting : List Instant
  history : LimiterHistory

namespace Lineup

def ask (s : Lineup) (others : List Instant) : Except Fault Lineup := do
  let (admission, limiter) ← s.limiter.tryGrant s.now
  match admission with
  | .granted => return ⟨s.now, limiter, others, s.history ++ [(s.now, .granted)]⟩
  | .refused d => return ⟨s.now, limiter, others ++ [⟨s.now.nanos + d.nanos⟩], s.history⟩

/-- What happens to those who wait: one who is due asks again, or time passes and nobody oversleeps. -/
inductive Serve (s : Lineup) : Lineup → Prop
  | again (before after : List Instant) {s' : Lineup} (hw : s.waiting = before ++ s.now :: after)
    (h : s.ask (before ++ after) = .ok s') : Serve s s'
  | elapse (time : Instant) (hlt : s.now < time) (hw : ∀ wake ∈ s.waiting, time ≤ wake) :
    Serve s { s with now := time }

inductive Step (s : Lineup) : Lineup → Prop
  | serve {s' : Lineup} (h : Serve s s') : Step s s'
  | arrive : Step s { s with waiting := s.waiting ++ [s.now] }
  | act {a : LimiterAct} {mark : Option LimiterMark} {limiter : Limiter}
    (h : s.limiter.act s.now a = .ok (mark, limiter)) :
    Step s ⟨s.now, limiter, s.waiting, s.history ++ mark.toList.map (s.now, ·)⟩

abbrev Serves : Lineup → Lineup → Prop := Relation.ReflTransGen Serve

abbrev Reaches : Lineup → Lineup → Prop := Relation.ReflTransGen Step

/-- `n` callers at a limiter that was not used before. -/
def crowd (q : Quota) (start : Instant) (n : Nat) : Lineup :=
  ⟨start, .ofQuota q, List.replicate n start, []⟩

theorem crowd_reaches (q : Quota) (start : Instant) (n : Nat) :
    Reaches (crowd q start 0) (crowd q start n) := by
  induction n with
  | zero => exact .refl
  | succ n ih =>
    have hone : crowd q start (n + 1) =
        { crowd q start n with waiting := (crowd q start n).waiting ++ [start] } := by
      simp only [crowd, List.replicate_succ']
    rw [hone]
    exact ih.tail .arrive

theorem Serves.reaches {s s' : Lineup} (h : Serves s s') : Reaches s s' := by
  induction h with
  | refl => exact .refl
  | tail _ hstep ih => exact ih.tail (.serve hstep)

variable {s s' : Lineup} {d : Span}

theorem ask_cases {others : List Instant} (h : s.ask others = .ok s') :
    (∃ l, s.limiter.tryGrant s.now = .ok (.granted, l) ∧
      s' = ⟨s.now, l, others, s.history ++ [(s.now, .granted)]⟩) ∨
    ∃ d l, s.limiter.tryGrant s.now = .ok (.refused d, l) ∧
      s' = ⟨s.now, l, others ++ [⟨s.now.nanos + d.nanos⟩], s.history⟩ := by
  obtain ⟨⟨admission, l⟩, ht, h⟩ := except_bind_ok.mp h
  cases admission with
  | granted =>
    cases h
    exact .inl ⟨l, ht, rfl⟩
  | refused d =>
    cases h
    exact .inr ⟨d, l, ht, rfl⟩

theorem ask_ok (h : s.limiter.InTime) (others : List Instant) : ∃ s', s.ask others = .ok s' := by
  obtain ⟨admission, l, ht⟩ := h.tryGrant s.now
  cases admission with
  | granted => exact ⟨_, except_bind_ok.mpr ⟨_, ht, rfl⟩⟩
  | refused d => exact ⟨_, except_bind_ok.mpr ⟨_, ht, rfl⟩⟩

/-- Nobody who waits is late for the opening of the limiter. -/
structure Awake (s : Lineup) : Prop where
  bounded : s.limiter.Bounded
  knows : s.limiter.Knows s.history s.now
  wakes : ∀ wake ∈ s.waiting, s.now ≤ wake ∧ wake.nanos ≤ max s.now.nanos s.limiter.opening

namespace Awake

theorem crowd (q : Quota) (start : Instant) (n : Nat) : (crowd q start n).Awake where
  bounded := .ofQuota q
  knows := .nothing q start
  wakes wake hw := by
    cases List.eq_of_mem_replicate hw
    exact ⟨Nat.le_refl _, Nat.le_max_left ..⟩

theorem serve (a : s.Awake) (h : Serve s s') : s'.Awake := by
  cases h with
  | again before after hw h =>
    have hothers : ∀ wake ∈ before ++ after, wake ∈ s.waiting := by
      intro wake hm
      rw [hw]
      simp only [List.mem_append, List.mem_cons] at hm ⊢
      tauto
    rcases ask_cases h with ⟨l, ht, rfl⟩ | ⟨d, l, ht, rfl⟩
    · refine ⟨a.bounded.tryGrant ht, by simpa using a.knows.tryGrant ht, ?_⟩
      intro wake hm
      obtain ⟨hnow, hopen⟩ := a.wakes wake (hothers wake hm)
      have hgranted := Limiter.opening_of_granted a.bounded ht
      refine ⟨hnow, ?_⟩
      change wake.nanos ≤ max s.now.nanos l.opening
      omega
    · obtain ⟨htold, hsame⟩ := Limiter.opening_of_refused a.bounded ht
      refine ⟨a.bounded.tryGrant ht, by simpa using a.knows.tryGrant ht, ?_⟩
      intro wake hm
      change s.now ≤ wake ∧ wake.nanos ≤ max s.now.nanos l.opening
      rw [hsame]
      rcases List.mem_append.mp hm with hm | hm
      · exact a.wakes wake (hothers wake hm)
      · cases List.mem_singleton.mp hm
        exact ⟨Nat.le_add_right .., Nat.le_trans htold (Nat.le_max_right ..)⟩
  | elapse time hlt hw =>
    have hlt : s.now.nanos < time.nanos := hlt
    refine ⟨a.bounded, a.knows.later (Nat.le_of_lt hlt), ?_⟩
    intro wake hm
    obtain ⟨-, hopen⟩ := a.wakes wake hm
    refine ⟨hw wake hm, ?_⟩
    change wake.nanos ≤ max time.nanos s.limiter.opening
    omega

theorem step (a : s.Awake) (h : Step s s') : s'.Awake := by
  cases h with
  | serve h => exact a.serve h
  | arrive =>
    refine ⟨a.bounded, a.knows, ?_⟩
    intro wake hm
    rcases List.mem_append.mp hm with hm | hm
    · exact a.wakes wake hm
    · cases List.mem_singleton.mp hm
      exact ⟨Nat.le_refl _, Nat.le_max_left ..⟩
  | act h =>
    refine ⟨a.bounded.act h, a.knows.act h, ?_⟩
    intro wake hm
    obtain ⟨hnow, hopen⟩ := a.wakes wake hm
    exact ⟨hnow, Nat.le_trans hopen (Limiter.opening_act a.bounded h).1⟩

theorem reaches (a : s.Awake) (h : Reaches s s') : s'.Awake := by
  induction h with
  | refl => exact a
  | tail _ hstep ih => exact ih.step hstep

end Awake

theorem Step.history_prefix (h : Step s s') : s.history <+: s'.history := by
  cases h with
  | serve h =>
    cases h with
    | again before after hw h =>
      rcases ask_cases h with ⟨l, ht, rfl⟩ | ⟨d, l, ht, rfl⟩
      · exact List.prefix_append ..
      · exact List.prefix_rfl
    | elapse time hlt hw => exact List.prefix_rfl
  | arrive => exact List.prefix_rfl
  | act h => exact List.prefix_append ..

theorem Reaches.history_prefix (h : Reaches s s') : s.history <+: s'.history := by
  induction h with
  | refl => exact List.prefix_rfl
  | tail _ hstep ih => exact ih.trans hstep.history_prefix

/-- While no slot is granted and no pause imposed, those who wait keep the time from passing the
opening of the limiter. -/
theorem Step.unmarked (a : s.Awake) (hne : s.waiting ≠ []) (h : Step s s')
    (hsame : s'.history = s.history) :
    s'.waiting ≠ [] ∧ max s'.now.nanos s'.limiter.opening = max s.now.nanos s.limiter.opening := by
  cases h with
  | serve h =>
    cases h with
    | again before after hw h =>
      rcases ask_cases h with ⟨l, ht, rfl⟩ | ⟨d, l, ht, rfl⟩
      · simp at hsame
      · refine ⟨by simp, ?_⟩
        rw [(Limiter.opening_of_refused a.bounded ht).2]
    | elapse time hlt hw =>
      refine ⟨hne, ?_⟩
      obtain ⟨wake, hm⟩ := List.exists_mem_of_ne_nil _ hne
      have hopen := (a.wakes wake hm).2
      have hle : time.nanos ≤ wake.nanos := hw wake hm
      have hlt : s.now.nanos < time.nanos := hlt
      change max time.nanos s.limiter.opening = _
      omega
  | arrive => exact ⟨by simp, rfl⟩
  | @act act mark limiter h =>
    have hmark : mark = none := by simpa using hsame
    exact ⟨hne, (Limiter.opening_act a.bounded h).2 hmark⟩

theorem Reaches.unmarked (a : s.Awake) (hne : s.waiting ≠ []) (h : Reaches s s')
    (hsame : s'.history = s.history) :
    s'.waiting ≠ [] ∧ max s'.now.nanos s'.limiter.opening = max s.now.nanos s.limiter.opening := by
  induction h with
  | refl => exact ⟨hne, rfl⟩
  | @tail s₁ s₂ hr hstep ih =>
    have hbetween : s₁.history = s.history :=
      (hsame ▸ hstep.history_prefix).eq_of_length_le (Reaches.history_prefix hr).length_le
    obtain ⟨hne₁, heq⟩ := ih hbetween
    obtain ⟨hne₂, heq₂⟩ := hstep.unmarked (a.reaches hr) hne₁ (hsame.trans hbetween.symm)
    exact ⟨hne₂, heq₂.trans heq⟩

/-- `now + d` is the earliest instant at which a slot may be granted, and nobody who waits misses it. -/
structure Prompt (s : Lineup) (d : Span) : Prop where
  earliest : ∀ t l, s.now ≤ t → s.limiter.tryGrant t = .ok (.granted, l) →
    s.now.nanos + d.nanos ≤ t.nanos
  wakes : ∀ wake ∈ s.waiting, s.now ≤ wake ∧ wake.nanos ≤ s.now.nanos + d.nanos
  /-- The slot is taken by then, unless a pause has been imposed. -/
  taken : s.waiting ≠ [] → ∀ s', Reaches s s' → s.now.nanos + d.nanos < s'.now.nanos →
    s'.history ≠ s.history

theorem Awake.prompt (a : s.Awake) {l : Limiter}
    (h : s.limiter.timeUntilAvailable s.now = .ok (d, l)) : s.Prompt d := by
  have htold := Limiter.timeUntilAvailable_eq a.bounded h
  refine ⟨?_, ?_, ?_⟩
  · intro t l ht hg
    have hnow : s.now.nanos ≤ t.nanos := ht
    have hopen := Limiter.opening_of_granted a.bounded hg
    omega
  · intro wake hm
    rw [htold]
    exact a.wakes wake hm
  · intro hne s' hr hlate hsame
    have hopen := (hr.unmarked a hne hsame).2
    omega

/-- One caller, who finds the limiter as it left it: after `n` refusals it has a slot at `t`. -/
inductive Acquires : Limiter → Instant → Nat → Instant → Limiter → Prop
  | granted {l l' : Limiter} {now : Instant} (h : l.tryGrant now = .ok (.granted, l')) :
    Acquires l now 0 now l'
  | refused {l l₁ l' : Limiter} {now t : Instant} {d : Span} {n : Nat}
    (h : l.tryGrant now = .ok (.refused d, l₁)) (hr : Acquires l₁ ⟨now.nanos + d.nanos⟩ n t l') :
    Acquires l now (n + 1) t l'

theorem acquires_at_opening {l : Limiter} (hl : l.Bounded) (ht : l.InTime) (now : Instant) :
    ∃ n ≤ 2, ∃ t l', Acquires l now n t l' ∧ t.nanos = max now.nanos l.opening := by
  obtain ⟨admission, l₁, h₁⟩ := ht.tryGrant now
  cases admission with
  | granted =>
    have hopen := Limiter.opening_of_granted hl h₁
    exact ⟨0, by decide, now, l₁, .granted h₁, by omega⟩
  | refused d₁ =>
    have hl₁ := hl.tryGrant h₁
    obtain ⟨hwait₁, hsame₁⟩ := Limiter.opening_of_refused hl h₁
    have ht₁ := ht.refused hl h₁
    obtain ⟨second, l₂, h₂⟩ := ht₁.tryGrant ⟨now.nanos + d₁.nanos⟩
    cases second with
    | granted =>
      have hopen := Limiter.opening_of_granted hl₁ h₂
      refine ⟨1, by decide, _, l₂, .refused h₁ (.granted h₂), ?_⟩
      change now.nanos + d₁.nanos = _
      simp only at hopen
      omega
    | refused d₂ =>
      -- The first refusal was for a pause and the second for the window, which is the later of the two.
      obtain ⟨hwait₂, hsame₂⟩ := Limiter.opening_of_refused hl₁ h₂
      have hsum : now.nanos + d₁.nanos + d₂.nanos = l.opening := by
        obtain ⟨hpos₁, ⟨hd₁, rfl⟩ | ⟨hblock, hd₁, rfl⟩⟩ := Limiter.refused_cases hl h₁
        · obtain ⟨hpos₂, ⟨hd₂, -⟩ | ⟨-, hd₂, -⟩⟩ := Limiter.refused_cases hl₁ h₂
          · simp only at hpos₂ hd₂
            omega
          · simp only [Limiter.opening] at hd₂ hwait₂ ⊢
            omega
        · simp only [Limiter.opening] at hsame₁ hwait₂ hsame₂ hwait₁
          obtain ⟨hpos₂, -⟩ := Limiter.refused_cases hl₁ h₂
          simp only at hpos₂
          omega
      have hopen : l₂.opening = now.nanos + d₁.nanos + d₂.nanos := by omega
      have hlast : l₂.opening ≤ (⟨now.nanos + d₁.nanos + d₂.nanos⟩ : Instant).nanos :=
        Nat.le_of_eq hopen
      obtain ⟨l₃, h₃⟩ := Limiter.granted_of_open (hl₁.tryGrant h₂) (ht₁.refused hl₁ h₂) hlast
      refine ⟨2, by decide, _, l₃, .refused h₁ (.refused h₂ (.granted h₃)), ?_⟩
      change now.nanos + d₁.nanos + d₂.nanos = _
      omega

/-- When the caller with number `k` gets a slot of those who came together. -/
def turn (q : Quota) (start : Instant) (k : Nat) : Instant :=
  ⟨start.nanos + k / q.limit * q.period.nanos⟩

theorem turn_mono (q : Quota) (start : Instant) {j k : Nat} (h : j ≤ k) :
    turn q start j ≤ turn q start k :=
  Nat.add_le_add_left (Nat.mul_le_mul_right _ (Nat.div_le_div_right h)) _

theorem turn_add_limit (q : Quota) (start : Instant) (k : Nat) :
    (turn q start (k + q.limit)).nanos = (turn q start k).nanos + q.period.nanos := by
  simp only [turn, Nat.add_div_right k q.limit_pos, Nat.succ_mul]
  omega

theorem turn_of_lt (q : Quota) (start : Instant) {k : Nat} (h : k < q.limit) :
    turn q start k = start := by
  simp only [turn, Nat.div_eq_of_lt h, Nat.zero_mul, Nat.add_zero]

/-- Of `n` who came together at `start`, the first `m` have had their turns. -/
structure Drawn (q : Quota) (start : Instant) (n m : Nat) (s : Lineup) : Prop where
  awake : s.Awake
  quota : s.limiter.quota = q
  unpaused : s.limiter.blockedUntil = none
  count : m + s.waiting.length = n
  grants : LimiterHistory.grants s.history = (List.range m).map (turn q start)
  started : start ≤ s.now
  onTime : s.waiting ≠ [] → s.now ≤ turn q start m

namespace Drawn

variable {q : Quota} {start : Instant} {n m : Nat}

theorem crowd (q : Quota) (start : Instant) (n : Nat) : Drawn q start n 0 (crowd q start n) where
  awake := .crowd q start n
  quota := rfl
  unpaused := rfl
  count := by simp [Lineup.crowd]
  grants := rfl
  started := Nat.le_refl _
  onTime _ := Nat.le_add_right ..

theorem opening_eq (h : Drawn q start n m s) : s.limiter.opening = s.limiter.windowEnd := by
  simp only [Limiter.opening, Limiter.blockEnd, h.unpaused, Option.map_none, Option.getD_none]
  exact Nat.max_eq_right (Nat.zero_le _)

/-- The window leaves the limiter shut until the next turn, if at all. -/
theorem windowEnd (h : Drawn q start n m s) : s.limiter.windowEnd = (turn q start m).nanos ∨
    s.limiter.windowEnd = 0 ∧ turn q start m ≤ s.now := by
  obtain ⟨old, hold, hpassed⟩ := h.awake.knows.evicted
  have hfew := h.awake.bounded.few
  rw [h.quota] at hpassed hfew
  have hlen : m = old.length + s.limiter.grants.length := by
    have := congrArg List.length (h.grants.symm.trans hold)
    simpa using this
  by_cases hfirst : m < q.limit
  · have hroom : s.limiter.grants.length < s.limiter.quota.limit := by
      rw [h.quota]
      omega
    rw [turn_of_lt q start hfirst]
    exact .inr ⟨Limiter.windowEnd_of_room hroom, h.started⟩
  · obtain ⟨k, rfl⟩ := Nat.exists_eq_add_of_le' (Nat.le_of_not_lt hfirst)
    have hk : (LimiterHistory.grants s.history)[k]? = some (turn q start k) := by
      have hpos := q.limit_pos
      simp [h.grants, hpos]
    rw [hold] at hk
    by_cases hroom : s.limiter.grants.length < q.limit
    · right
      rw [List.getElem?_append_left (by omega)] at hk
      refine ⟨Limiter.windowEnd_of_room (h.quota.symm ▸ hroom), ?_⟩
      have hle := hpassed _ (List.mem_of_getElem? hk)
      rw [← turn_add_limit] at hle
      exact hle
    · left
      have hk' : k = old.length := by omega
      rw [hk', List.getElem?_append_right (Nat.le_refl _), Nat.sub_self,
        ← List.head?_eq_getElem?] at hk
      rw [Limiter.windowEnd_of_full (h.quota.symm ▸ Nat.le_of_not_lt hroom) hk, h.quota,
        turn_add_limit, hk']

theorem inTime (h : Drawn q start n m s) (hne : s.waiting ≠ [])
    (hclock : 2 ≤ n → (turn q start (n - 2)).nanos + q.period.nanos < Instant.horizon) :
    s.limiter.InTime := by
  intro g hg
  obtain ⟨old, hold, -⟩ := h.awake.knows.evicted
  have hmem : g ∈ (List.range m).map (turn q start) := by
    rw [← h.grants, hold]
    exact List.mem_append_right _ hg
  obtain ⟨k, hk, rfl⟩ := List.mem_map.mp hmem
  have hk := List.mem_range.mp hk
  have hcount := h.count
  have hsome := List.length_pos_iff.mpr hne
  have hle : (turn q start k).nanos ≤ (turn q start (n - 2)).nanos :=
    turn_mono q start (show k ≤ n - 2 by omega)
  have hlast := hclock (by omega)
  rw [h.quota]
  omega

theorem granted (h : Drawn q start n m s) {before after : List Instant} {l : Limiter}
    (hw : s.waiting = before ++ s.now :: after)
    (ht : s.limiter.tryGrant s.now = .ok (.granted, l)) :
    s.now = turn q start m ∧
      Drawn q start n (m + 1) ⟨s.now, l, before ++ after, s.history ++ [(s.now, .granted)]⟩ := by
  have hopen := Limiter.opening_of_granted h.awake.bounded ht
  have hne : s.waiting ≠ [] := by simp [hw]
  have hnow : s.now = turn q start m := by
    have hle : s.now.nanos ≤ (turn q start m).nanos := h.onTime hne
    have hge : (turn q start m).nanos ≤ s.now.nanos := by
      rw [h.opening_eq] at hopen
      rcases h.windowEnd with hend | ⟨-, hend⟩
      · exact hend ▸ hopen
      · exact hend
    exact congrArg Instant.mk (Nat.le_antisymm hle hge)
  obtain ⟨hquota, hunpaused⟩ := Limiter.unpaused_of_granted ht
  refine ⟨hnow, h.awake.serve (.again _ _ hw (except_bind_ok.mpr ⟨_, ht, rfl⟩)),
    hquota.trans h.quota, hunpaused, ?_, ?_, h.started, ?_⟩
  · have hcount := h.count
    rw [hw] at hcount
    simp only [List.length_append, List.length_cons] at hcount ⊢
    omega
  · rw [LimiterHistory.grants_append, LimiterHistory.grants_granted, h.grants, List.range_succ,
      List.map_append, List.map_singleton, hnow]
  · intro _
    rw [hnow]
    exact turn_mono q start (Nat.le_succ m)

theorem refused (h : Drawn q start n m s) {before after : List Instant} {l : Limiter}
    (hw : s.waiting = before ++ s.now :: after)
    (ht : s.limiter.tryGrant s.now = .ok (.refused d, l)) :
    s.now < turn q start m ∧ s.now.nanos + d.nanos = (turn q start m).nanos ∧
      Drawn q start n m
        ⟨s.now, l, before ++ after ++ [⟨s.now.nanos + d.nanos⟩], s.history⟩ := by
  have hawake := h.awake.serve (.again _ _ hw (except_bind_ok.mpr ⟨_, ht, rfl⟩))
  have hblock : s.limiter.blockEnd = 0 := by simp [Limiter.blockEnd, h.unpaused]
  obtain ⟨hpos, ⟨hd, -⟩ | ⟨-, hd, rfl⟩⟩ := Limiter.refused_cases h.awake.bounded ht
  · omega
  · have hturn : s.now.nanos + d.nanos = (turn q start m).nanos := by
      rcases h.windowEnd with hend | ⟨hend, -⟩
      · exact hd.trans hend
      · omega
    have hearly : s.now < turn q start m := show s.now.nanos < _ from hturn ▸ hpos
    refine ⟨hearly, hturn, hawake, h.quota, rfl, ?_, h.grants, h.started, ?_⟩
    · have hcount := h.count
      rw [hw] at hcount
      simp only [List.length_append, List.length_cons, List.length_nil] at hcount ⊢
      omega
    · exact fun _ => h.onTime (by simp [hw])

theorem elapse (h : Drawn q start n m s) {time : Instant} (hlt : s.now < time)
    (hw : ∀ wake ∈ s.waiting, time ≤ wake) : Drawn q start n m { s with now := time } := by
  refine ⟨h.awake.serve (.elapse _ hlt hw), h.quota, h.unpaused, h.count, h.grants,
    Nat.le_trans h.started (Nat.le_of_lt hlt), ?_⟩
  intro hne
  obtain ⟨wake, hm⟩ := List.exists_mem_of_ne_nil _ hne
  have hopen := (h.awake.wakes wake hm).2
  have hle : time.nanos ≤ wake.nanos := hw wake hm
  have hlt : s.now.nanos < time.nanos := hlt
  rw [h.opening_eq] at hopen
  change time.nanos ≤ (turn q start m).nanos
  rcases h.windowEnd with hend | ⟨hend, -⟩ <;> omega

/-- What is left to be done: the slots to be granted, then the refusals before the next of them, then
the time until then. -/
def rank (q : Quota) (start : Instant) (m : Nat) (s : Lineup) : Nat ×ₗ Nat ×ₗ Nat :=
  toLex (s.waiting.length, toLex (s.waiting.countP (· < turn q start m),
    (turn q start m).nanos - s.now.nanos))

theorem serve (h : Drawn q start n m s) (hs : Serve s s') : ∃ m', Drawn q start n m' s' ∧
    (s.waiting ≠ [] → rank q start m' s' < rank q start m s) := by
  cases hs with
  | again before after hw hask =>
    rcases ask_cases hask with ⟨l, ht, rfl⟩ | ⟨d, l, ht, rfl⟩
    · refine ⟨m + 1, (h.granted hw ht).2, fun _ => Prod.Lex.toLex_lt_toLex.mpr (.inl ?_)⟩
      simp only [hw, List.length_append, List.length_cons]
      omega
    · obtain ⟨hearly, hturn, hnext⟩ := h.refused hw ht
      refine ⟨m, hnext, fun _ => Prod.Lex.toLex_lt_toLex.mpr (.inr ⟨?_, ?_⟩)⟩
      · simp only [hw, List.length_append, List.length_cons, List.length_nil]
        omega
      · refine Prod.Lex.toLex_lt_toLex.mpr (.inl ?_)
        have hlate : ¬ (⟨s.now.nanos + d.nanos⟩ : Instant) < turn q start m :=
          Nat.not_lt.mpr (Nat.le_of_eq hturn.symm)
        simp [hw, List.countP_append, hearly, hlate]
  | elapse time hlt hw =>
    refine ⟨m, h.elapse hlt hw, fun hne => Prod.Lex.toLex_lt_toLex.mpr (.inr ⟨rfl, ?_⟩)⟩
    have hle : time.nanos ≤ (turn q start m).nanos := (h.elapse hlt hw).onTime hne
    have hlt : s.now.nanos < time.nanos := hlt
    refine Prod.Lex.toLex_lt_toLex.mpr (.inr ⟨rfl, ?_⟩)
    simp only
    omega

theorem serves (h : Drawn q start n m s) (hs : Serves s s') : ∃ m', Drawn q start n m' s' := by
  induction hs with
  | refl => exact ⟨m, h⟩
  | tail _ hstep ih =>
    obtain ⟨m₁, h₁⟩ := ih
    obtain ⟨m₂, h₂, -⟩ := h₁.serve hstep
    exact ⟨m₂, h₂⟩

theorem ends (h : Drawn q start n m s) : Acc (fun s' s => s.waiting ≠ [] ∧ Serve s s') s := by
  induction hr : rank q start m s using WellFoundedLT.induction generalizing m s with
  | ind r ih =>
    refine .intro s fun s' ⟨hne, hs⟩ => ?_
    obtain ⟨m', h', hlt⟩ := h.serve hs
    exact ih _ (hr ▸ hlt hne) h' rfl

end Drawn

/-- Those who wait can go on, whoever of them is due. -/
theorem serve_of_inTime (ht : s.limiter.InTime) (hw : ∀ wake ∈ s.waiting, s.now ≤ wake) :
    ∃ s', Serve s s' := by
  by_cases hdue : s.now ∈ s.waiting
  · obtain ⟨before, after, hsplit⟩ := List.append_of_mem hdue
    obtain ⟨s', hask⟩ := ask_ok ht (before ++ after)
    exact ⟨s', .again _ _ hsplit hask⟩
  · refine ⟨_, .elapse ⟨s.now.nanos + 1⟩ (Nat.lt_succ_self _) ?_⟩
    intro wake hm
    refine Nat.lt_of_le_of_ne (hw wake hm) fun heq => hdue ?_
    have hnow : s.now = wake := congrArg Instant.mk heq
    exact hnow ▸ hm

/-- `n` callers who came together at `start` are served in turn, and none of them waits for ever. -/
structure Even (q : Quota) (start : Instant) (n : Nat) (s : Lineup) : Prop where
  served : ∃ m, m + s.waiting.length = n ∧
    LimiterHistory.grants s.history = (List.range m).map (turn q start)
  answered : s.waiting ≠ [] → ∀ others, ∃ s', s.ask others = .ok s'
  moves : s.waiting ≠ [] → ∃ s', Serve s s'
  ends : Acc (fun s' s => s.waiting ≠ [] ∧ Serve s s') s

theorem even_of_serves {q : Quota} {start : Instant} {n : Nat}
    (hclock : 2 ≤ n → (turn q start (n - 2)).nanos + q.period.nanos < Instant.horizon)
    (h : Serves (crowd q start n) s) : s.Even q start n := by
  obtain ⟨m, hd⟩ := (Drawn.crowd q start n).serves h
  exact {
    served := ⟨m, hd.count, hd.grants⟩
    answered := fun hne => ask_ok (hd.inTime hne hclock)
    moves := fun hne => serve_of_inTime (hd.inTime hne hclock) fun w hw => (hd.awake.wakes w hw).1
    ends := hd.ends }

/-- Nobody who waits for a slot oversleeps, however many others wait, take slots and impose pauses: the
time until a slot is available leads to the earliest slot, and to no caller's loss. One who is alone
has that slot after two refusals at most, and a crowd is served evenly in whatever order it asks. -/
theorem no_wake_lost (q : Quota) (start : Instant) :
    (∀ s, Reaches (crowd q start 0) s →
      (∀ d l, s.limiter.timeUntilAvailable s.now = .ok (d, l) → s.Prompt d) ∧
      (s.limiter.InTime → ∃ d l, s.limiter.timeUntilAvailable s.now = .ok (d, l) ∧
        ∃ n ≤ 2, ∃ l', Acquires s.limiter s.now n ⟨s.now.nanos + d.nanos⟩ l')) ∧
    ∀ n s, Serves (crowd q start n) s → Reaches (crowd q start 0) s ∧
      ((2 ≤ n → (turn q start (n - 2)).nanos + q.period.nanos < Instant.horizon) →
        s.Even q start n) := by
  refine ⟨fun s hs => ?_, fun n s hs =>
    ⟨(crowd_reaches q start n).trans (Serves.reaches hs), fun hclock => even_of_serves hclock hs⟩⟩
  have hawake := (Awake.crowd q start 0).reaches hs
  refine ⟨fun d l htold => hawake.prompt htold, fun ht => ?_⟩
  obtain ⟨d, l, htold⟩ := ht.timeUntilAvailable s.now
  obtain ⟨n, hn, t, l', hacq, hopen⟩ := acquires_at_opening hawake.bounded ht s.now
  have heq : t = ⟨s.now.nanos + d.nanos⟩ :=
    congrArg Instant.mk (hopen.trans (Limiter.timeUntilAvailable_eq hawake.bounded htold).symm)
  exact ⟨d, l, htold, n, hn, l', heq ▸ hacq⟩

/-- One slot every four nanoseconds: a second caller, whom a pause keeps back first, and the second of
three who come together. -/
theorem no_wake_lost_twice : ∃ q : Quota,
    (∃ s d, Reaches (crowd q .start 0) s ∧ s.waiting = [.start] ∧ s.limiter.blockedUntil = some ⟨2⟩ ∧
      d.nanos = 4 ∧ s.Prompt d ∧ ∃ n ≤ 2, ∃ l', Acquires s.limiter s.now n ⟨4⟩ l') ∧
    ∃ s, Serves (crowd q .start 3) s ∧ s.waiting = [⟨4⟩] ∧
      LimiterHistory.grants s.history = [⟨0⟩, ⟨4⟩] ∧ s.Even q .start 3 := by
  let q : Quota := ⟨1, .ofNanos 4, by decide, by decide⟩
  obtain ⟨hprompt, hcrowd⟩ := no_wake_lost q .start
  refine ⟨q, ?_, ?_⟩
  · let s : Lineup := ⟨.start, ⟨q, [.start], some ⟨2⟩⟩, [.start],
      [(.start, .granted), (.start, .paused (.ofNanos 2))]⟩
    have hs : Reaches (crowd q .start 0) s :=
      (crowd_reaches q .start 2).tail (.serve (.again [] [.start] rfl rfl))
        |>.tail (.act (a := .penalize (.ofNanos 2)) rfl)
    have htold : s.limiter.timeUntilAvailable s.now =
        .ok (.ofNanos 4, ⟨q, [.start], some ⟨2⟩⟩) := by rfl
    obtain ⟨hprompt, hlone⟩ := hprompt s hs
    obtain ⟨d, l, htold', hacq⟩ := hlone (by
      intro g hg
      cases List.mem_singleton.mp hg
      decide)
    cases htold.symm.trans htold'
    exact ⟨s, _, hs, rfl, rfl, rfl, hprompt _ _ htold, hacq⟩
  · let s : Lineup := ⟨⟨4⟩, ⟨q, [⟨4⟩], none⟩, [⟨4⟩], [(⟨0⟩, .granted), (⟨4⟩, .granted)]⟩
    have hs : Serves (crowd q .start 3) s :=
      Relation.ReflTransGen.refl.tail (.again [] [⟨0⟩, ⟨0⟩] rfl rfl)
        |>.tail (.again [] [⟨0⟩] rfl rfl)
        |>.tail (.again [] [⟨4⟩] rfl rfl)
        |>.tail (.elapse ⟨4⟩ (by decide) (by decide))
        |>.tail (.again [] [⟨4⟩] rfl rfl)
    exact ⟨s, hs, rfl, rfl, (hcrowd 3 s hs).2 fun _ => by decide⟩

/-- A period that reaches beyond the clock is accepted, and of two who come together for two slots the
second gets neither a slot nor an answer. -/
theorem second_of_two_stranded : ∃ q s, Quota.make 2 (.ofSeconds (Width.beyond64 - 1)) = .ok q ∧
    Serves (crowd q .start 2) s ∧ s.waiting = [.start] ∧ s.limiter.grants.length < q.limit ∧
    s.limiter.timeUntilAvailable s.now = .error .clock ∧ s.ask [] = .error .clock ∧
    ∀ s', ¬ Serve s s' := by
  let q : Quota := ⟨2, .ofSeconds (Width.beyond64 - 1), by decide, by decide⟩
  let s : Lineup := ⟨.start, ⟨q, [.start], none⟩, [.start], [(.start, .granted)]⟩
  have hask : s.ask [] = .error .clock := by rfl
  refine ⟨q, s, by rfl, .single (.again [] [.start] rfl rfl), rfl,
    by decide, by rfl, hask, ?_⟩
  intro s' hs
  cases hs with
  | again before after hw h =>
    obtain ⟨rfl, hafter⟩ | ⟨rest, rfl, hrest⟩ := List.cons_eq_append_iff.mp hw
    · cases hafter
      cases hask.symm.trans h
    · simp at hrest
  | elapse time hlt hw => exact absurd hlt (Nat.not_lt.mpr (hw .start List.mem_cons_self))

end Lineup

end CatalogClient
