import CatalogClient.Limiter
import CatalogClient.Proofs.Bind
import Mathlib.Data.List.NodupEquivFin
/-!
All that a limiter has done, of which it keeps the latest part only: the slots it granted and the
pauses imposed on it. However it is used, the slots keep the quota and heed the pauses.
-/

namespace CatalogClient

/-- What is done with a limiter. One who waits for a slot asks again after every refusal. -/
inductive LimiterAct
  | ask
  | penalize (d : Span)
  | available
  | timeUntilAvailable
  deriving DecidableEq, Repr

inductive LimiterMark
  | granted
  | paused (d : Span)
  deriving DecidableEq, Repr

/-- Marks with their times, the earliest first. -/
abbrev LimiterHistory := List (Instant × LimiterMark)

namespace LimiterHistory

def grants (h : LimiterHistory) : List Instant :=
  h.filterMap fun x => match x.2 with
    | .granted => some x.1
    | .paused _ => none

/-- From each slot to the one that comes `limit` slots later a whole period passes. -/
def Spaced (q : Quota) (ts : List Instant) : Prop :=
  ∀ i, (hi : i + q.limit < ts.length) → ts[i].nanos + q.period.nanos ≤ ts[i + q.limit].nanos

def pauseEnd (s : Instant) (d : Span) : Nat := s.nanos + (min d Limiter.longestPenalty).nanos

/-- No slot after a pause was imposed is granted before its end, unless that lies beyond the clock. -/
def Heeded (h : LimiterHistory) : Prop :=
  h.Pairwise fun x y => ∀ d, x.2 = .paused d → y.2 = .granted →
    pauseEnd x.1 d < Instant.horizon → pauseEnd x.1 d ≤ y.1.nanos

theorem add?_pause (s : Instant) (d : Span) : s.add? (min d Limiter.longestPenalty) =
    if pauseEnd s d < Instant.horizon then some ⟨pauseEnd s d⟩ else none := rfl

theorem grants_append (h k : LimiterHistory) : grants (h ++ k) = grants h ++ grants k :=
  List.filterMap_append

theorem grants_granted (now : Instant) : grants [(now, .granted)] = [now] := rfl

theorem grants_paused (now : Instant) (d : Span) : grants [(now, .paused d)] = [] := rfl

theorem grants_ordered {h : LimiterHistory} (ho : (h.map (·.1)).Pairwise (· ≤ ·)) :
    (grants h).Pairwise (· ≤ ·) := by
  refine List.Pairwise.filterMap _ ?_ (List.pairwise_map.mp ho)
  intro x y hxy s hs t ht
  obtain ⟨xt, xm⟩ := x
  obtain ⟨yt, ym⟩ := y
  cases xm <;> cases hs
  cases ym <;> cases ht
  exact hxy

theorem spaced_snoc {q : Quota} {ts : List Instant} {now : Instant} (h : Spaced q ts)
    (hn : ∀ i, (hi : i < ts.length) → i + q.limit = ts.length →
      ts[i].nanos + q.period.nanos ≤ now.nanos) : Spaced q (ts ++ [now]) := by
  intro i hi
  have hpos := q.limit_pos
  rw [List.length_append, List.length_singleton] at hi
  have hil : i < ts.length := by omega
  rw [List.getElem_append_left hil]
  by_cases hlast : i + q.limit < ts.length
  · rw [List.getElem_append_left hlast]
    exact h i hlast
  · rw [List.getElem_append_right (by omega)]
    simpa using hn i hil (by omega)

theorem spaced_span {q : Quota} {ts us : List Instant} (h : Spaced q ts)
    (hs : ts.Pairwise (· ≤ ·)) (hu : us.Sublist ts) (hl : us.length = q.limit + 1) :
    ∃ a ∈ us, ∃ b ∈ us, a.nanos + q.period.nanos ≤ b.nanos := by
  obtain ⟨f, hf⟩ := List.sublist_iff_exists_fin_orderEmbedding_get_eq.mp hu
  let first : Fin us.length := ⟨0, by omega⟩
  let last : Fin us.length := ⟨q.limit, by omega⟩
  have step : ∀ n (hn : n < us.length), (f first).val + n ≤ (f ⟨n, hn⟩).val := by
    intro n
    induction n with
    | zero => intro _; exact Nat.le_refl _
    | succ n ih =>
      intro hn
      have hlt : f ⟨n, by omega⟩ < f ⟨n + 1, hn⟩ := f.strictMono (by simp [Fin.lt_def])
      have := ih (by omega)
      have : (f ⟨n, by omega⟩).val < (f ⟨n + 1, hn⟩).val := hlt
      omega
  have hgap : (f first).val + q.limit ≤ (f last).val := step q.limit (by omega)
  have hbound : (f first).val + q.limit < ts.length := Nat.lt_of_le_of_lt hgap (f last).isLt
  have hspan := h (f first).val hbound
  have hle : ts[(f first).val + q.limit].nanos ≤ (ts.get (f last)).nanos := by
    rcases Nat.lt_or_eq_of_le hgap with hlt | heq
    · exact List.pairwise_iff_getElem.mp hs _ _ hbound (f last).isLt hlt
    · simp only [List.get_eq_getElem, heq, Nat.le_refl]
  refine ⟨us.get first, List.get_mem _ _, us.get last, List.get_mem _ _, ?_⟩
  rw [hf first, hf last]
  exact Nat.le_trans hspan hle

end LimiterHistory

namespace Limiter

def act (l : Limiter) (now : Instant) : LimiterAct → Except Fault (Option LimiterMark × Limiter)
  | .ask => do
    let (admission, l) ← l.tryGrant now
    return (if admission = .granted then some .granted else none, l)
  | .penalize d => return (some (.paused d), l.penalize now d)
  | .available => do
    let (_, l) ← l.available now
    return (none, l)
  | .timeUntilAvailable => do
    let (_, l) ← l.timeUntilAvailable now
    return (none, l)

def run (l : Limiter) (h : LimiterHistory) :
    List (Instant × LimiterAct) → Except Fault (Limiter × LimiterHistory)
  | [] => .ok (l, h)
  | (now, a) :: rest => do
    let (mark, l) ← l.act now a
    run l (h ++ mark.toList.map (now, ·)) rest

/-- What a limiter has to know of its history: of the slots, those whose period has not passed, and of
the pauses, the end of the last. -/
structure Knows (l : Limiter) (h : LimiterHistory) (now : Instant) : Prop where
  ordered : (h.map (·.1)).Pairwise (· ≤ ·)
  past : ∀ x ∈ h, x.1 ≤ now
  spaced : LimiterHistory.Spaced l.quota (LimiterHistory.grants h)
  heeded : LimiterHistory.Heeded h
  few : l.grants.length ≤ l.quota.limit
  evicted : ∃ old, LimiterHistory.grants h = old ++ l.grants ∧
    ∀ g ∈ old, g.nanos + l.quota.period.nanos ≤ now.nanos
  blocked : ∀ s d, (s, .paused d) ∈ h → LimiterHistory.pauseEnd s d < Instant.horizon →
    LimiterHistory.pauseEnd s d ≤ now.nanos ∨
      ∃ b, l.blockedUntil = some b ∧ LimiterHistory.pauseEnd s d ≤ b.nanos

theorem evict_ok {period : Span} {now : Instant} {gs kept : List Instant}
    (h : evict period now gs = .ok kept) :
    ∃ old, gs = old ++ kept ∧ (∀ g ∈ old, g.nanos + period.nanos ≤ now.nanos) ∧
      ∀ g ∈ kept.head?, now.nanos < g.nanos + period.nanos := by
  induction gs with
  | nil =>
    cases h
    exact ⟨[], rfl, by simp, by simp⟩
  | cons g gs ih =>
    simp only [evict, Instant.add?] at h
    split at h
    · cases h
    · rename_i passed hp
      split at hp
      · cases hp
        split at h
        · rename_i hle
          obtain ⟨old, rfl, hold, hhead⟩ := ih h
          refine ⟨g :: old, rfl, ?_, hhead⟩
          intro x hx
          rcases List.mem_cons.mp hx with rfl | hx
          · exact hle
          · exact hold x hx
        · rename_i hlt
          cases h
          refine ⟨[], rfl, by simp, ?_⟩
          intro x hx
          cases hx
          exact Nat.lt_of_not_le hlt
      · cases hp

theorem tryGrant_cases {l l' : Limiter} {now : Instant} {a : Admission}
    (h : l.tryGrant now = .ok (a, l')) :
    (∃ b, l.blockedUntil = some b ∧ now < b ∧ a = .refused (b.since now) ∧ l' = l) ∨
    (∀ b, l.blockedUntil = some b → b ≤ now) ∧ ∃ kept, evict l.quota.period now l.grants = .ok kept ∧
      (kept.length < l.quota.limit ∧ a = .granted ∧ l' = ⟨l.quota, kept ++ [now], none⟩ ∨
        l.quota.limit ≤ kept.length ∧ l' = ⟨l.quota, kept, none⟩ ∧
          ∃ wait, windowWait l.quota now kept = .ok wait ∧ a = .refused wait) := by
  simp only [tryGrant, block?] at h
  split at h
  · rename_i b hb
    obtain ⟨hb, hlt⟩ := Option.filter_eq_some_iff.mp hb
    cases h
    exact .inl ⟨b, hb, of_decide_eq_true hlt, rfl, rfl⟩
  · rename_i hnone
    obtain ⟨kept, hk, h⟩ := except_bind_ok.mp h
    refine .inr ⟨?_, kept, hk, ?_⟩
    · intro b hb
      have hn : ¬ now < b := by simpa using Option.filter_eq_none_iff.mp hnone b hb
      exact Nat.le_of_not_lt hn
    · by_cases hlen : kept.length < l.quota.limit
      · left
        rw [if_pos hlen] at h
        cases h
        exact ⟨hlen, rfl, rfl⟩
      · right
        rw [if_neg hlen] at h
        obtain ⟨wait, hw, h⟩ := except_bind_ok.mp h
        cases h
        exact ⟨Nat.le_of_not_lt hlen, rfl, wait, hw, rfl⟩

theorem available_cases {l l' : Limiter} {now : Instant} {n : Nat}
    (h : l.available now = .ok (n, l')) :
    l' = l ∨ ∃ kept, evict l.quota.period now l.grants = .ok kept ∧ l' = { l with grants := kept } := by
  simp only [available] at h
  split at h
  · cases h
    exact .inl rfl
  · obtain ⟨kept, hk, h⟩ := except_bind_ok.mp h
    cases h
    exact .inr ⟨kept, hk, rfl⟩

theorem timeUntilAvailable_cases {l l' : Limiter} {now : Instant} {d : Span}
    (h : l.timeUntilAvailable now = .ok (d, l')) :
    ∃ kept, evict l.quota.period now l.grants = .ok kept ∧ l' = { l with grants := kept } := by
  obtain ⟨kept, hk, h⟩ := except_bind_ok.mp h
  obtain ⟨wait, -, h⟩ := except_bind_ok.mp h
  cases h
  exact ⟨kept, hk, rfl⟩

theorem act_ask {l l' : Limiter} {now : Instant} {mark : Option LimiterMark}
    (h : l.act now .ask = .ok (mark, l')) :
    ∃ a, l.tryGrant now = .ok (a, l') ∧ mark = if a = .granted then some .granted else none := by
  obtain ⟨⟨a, l₁⟩, ht, h⟩ := except_bind_ok.mp h
  cases h
  exact ⟨a, ht, rfl⟩

theorem act_available {l l' : Limiter} {now : Instant} {mark : Option LimiterMark}
    (h : l.act now .available = .ok (mark, l')) :
    ∃ n, l.available now = .ok (n, l') ∧ mark = none := by
  obtain ⟨⟨n, l₁⟩, ht, h⟩ := except_bind_ok.mp h
  cases h
  exact ⟨n, ht, rfl⟩

theorem act_timeUntilAvailable {l l' : Limiter} {now : Instant} {mark : Option LimiterMark}
    (h : l.act now .timeUntilAvailable = .ok (mark, l')) :
    ∃ d, l.timeUntilAvailable now = .ok (d, l') ∧ mark = none := by
  obtain ⟨⟨d, l₁⟩, ht, h⟩ := except_bind_ok.mp h
  cases h
  exact ⟨d, ht, rfl⟩

theorem penalize_cases (l : Limiter) (now : Instant) (d : Span) :
    (l.penalize now d).quota = l.quota ∧ (l.penalize now d).grants = l.grants ∧
      (∀ b, l.blockedUntil = some b → ∃ b', (l.penalize now d).blockedUntil = some b' ∧ b ≤ b') ∧
      (LimiterHistory.pauseEnd now d < Instant.horizon →
        ∃ b', (l.penalize now d).blockedUntil = some b' ∧ LimiterHistory.pauseEnd now d ≤ b'.nanos) := by
  simp only [penalize, LimiterHistory.add?_pause]
  by_cases hin : LimiterHistory.pauseEnd now d < Instant.horizon
  · simp only [if_pos hin]
    cases hb : l.blockedUntil with
    | none => simp
    | some current =>
      simp only
      split
      · rename_i hlt
        refine ⟨rfl, rfl, ?_, ?_⟩
        · rintro b ⟨⟩
          exact ⟨_, rfl, Nat.le_of_lt hlt⟩
        · intro _
          exact ⟨_, rfl, Nat.le_refl _⟩
      · rename_i hge
        refine ⟨rfl, rfl, ?_, ?_⟩
        · rintro b ⟨⟩
          exact ⟨_, hb, Nat.le_refl _⟩
        · intro _
          exact ⟨_, hb, Nat.le_of_not_lt hge⟩
  · simp only [if_neg hin]
    refine ⟨trivial, trivial, ?_, ?_⟩
    · intro b hb
      exact ⟨b, hb, Nat.le_refl _⟩
    · intro hlt
      exact absurd hlt hin

theorem act_quota {l l' : Limiter} {now : Instant} {a : LimiterAct} {mark : Option LimiterMark}
    (ha : l.act now a = .ok (mark, l')) : l'.quota = l.quota := by
  cases a with
  | ask =>
    obtain ⟨admission, ht, -⟩ := act_ask ha
    rcases tryGrant_cases ht with ⟨b, -, -, -, rfl⟩ | ⟨-, kept, -, ⟨-, -, rfl⟩ | ⟨-, rfl, -⟩⟩ <;> rfl
  | penalize d =>
    cases ha
    exact (penalize_cases l now d).1
  | available =>
    obtain ⟨n, ht, -⟩ := act_available ha
    rcases available_cases ht with rfl | ⟨kept, -, rfl⟩ <;> rfl
  | timeUntilAvailable =>
    obtain ⟨d, ht, -⟩ := act_timeUntilAvailable ha
    obtain ⟨kept, -, rfl⟩ := timeUntilAvailable_cases ht
    rfl

namespace Knows

variable {l : Limiter} {h : LimiterHistory} {now : Instant}

theorem nothing (q : Quota) (now : Instant) : Knows (.ofQuota q) [] now where
  ordered := .nil
  past := by simp
  spaced := by
    intro i hi
    simp [LimiterHistory.grants] at hi
  heeded := .nil
  few := Nat.zero_le _
  evicted := ⟨[], rfl, by simp⟩
  blocked := by simp

theorem later (k : Knows l h now) {now' : Instant} (hn : now ≤ now') : Knows l h now' where
  ordered := k.ordered
  past x hx := Nat.le_trans (k.past x hx) hn
  spaced := k.spaced
  heeded := k.heeded
  few := k.few
  evicted := by
    obtain ⟨old, hg, hold⟩ := k.evicted
    exact ⟨old, hg, fun g hm => Nat.le_trans (hold g hm) hn⟩
  blocked s d hm he := (k.blocked s d hm he).imp_left fun hle => Nat.le_trans hle hn

theorem evict (k : Knows l h now) {kept : List Instant}
    (he : Limiter.evict l.quota.period now l.grants = .ok kept) :
    Knows { l with grants := kept } h now where
  ordered := k.ordered
  past := k.past
  spaced := k.spaced
  heeded := k.heeded
  few := by
    obtain ⟨old, hg, -⟩ := evict_ok he
    have := k.few
    rw [hg, List.length_append] at this
    exact Nat.le_trans (Nat.le_add_left _ _) this
  evicted := by
    obtain ⟨old, hg, hold, -⟩ := evict_ok he
    obtain ⟨older, hh, holder⟩ := k.evicted
    refine ⟨older ++ old, by rw [hh, hg, List.append_assoc], ?_⟩
    intro g hm
    rcases List.mem_append.mp hm with hm | hm
    · exact holder g hm
    · exact hold g hm
  blocked := k.blocked

theorem unblock (k : Knows l h now) (hb : ∀ b, l.blockedUntil = some b → b ≤ now) :
    Knows { l with blockedUntil := none } h now where
  ordered := k.ordered
  past := k.past
  spaced := k.spaced
  heeded := k.heeded
  few := k.few
  evicted := k.evicted
  blocked s d hm he := by
    rcases k.blocked s d hm he with hle | ⟨b, hl, hle⟩
    · exact .inl hle
    · exact .inl (Nat.le_trans hle (hb b hl))

theorem ordered_snoc (k : Knows l h now) (mark : LimiterMark) :
    ((h ++ [(now, mark)]).map (·.1)).Pairwise (· ≤ ·) := by
  rw [List.map_append, List.pairwise_append]
  refine ⟨k.ordered, List.pairwise_singleton _ _, ?_⟩
  intro s hs t ht
  obtain ⟨x, hx, rfl⟩ := List.mem_map.mp hs
  cases List.mem_singleton.mp ht
  exact k.past x hx

theorem past_snoc (k : Knows l h now) (mark : LimiterMark) :
    ∀ x ∈ h ++ [(now, mark)], x.1 ≤ now := by
  intro x hx
  rcases List.mem_append.mp hx with hx | hx
  · exact k.past x hx
  · cases List.mem_singleton.mp hx
    exact Nat.le_refl _

theorem grant (k : Knows l h now) (hb : l.blockedUntil = none)
    (hl : l.grants.length < l.quota.limit) :
    Knows { l with grants := l.grants ++ [now] } (h ++ [(now, .granted)]) now where
  ordered := k.ordered_snoc .granted
  past := k.past_snoc .granted
  spaced := by
    change LimiterHistory.Spaced l.quota _
    rw [LimiterHistory.grants_append, LimiterHistory.grants_granted]
    refine LimiterHistory.spaced_snoc k.spaced ?_
    intro i hi heq
    -- With fewer than `limit` slots in the window, the one `limit` slots back has left it.
    obtain ⟨old, hg, hold⟩ := k.evicted
    have hlt : i < old.length := by
      rw [hg, List.length_append] at heq
      omega
    simp only [hg, List.getElem_append_left hlt]
    exact hold _ (List.getElem_mem hlt)
  heeded := by
    refine List.pairwise_append.mpr ⟨k.heeded, List.pairwise_singleton _ _, ?_⟩
    intro x hx y hy d hd _ he
    cases List.mem_singleton.mp hy
    rcases k.blocked x.1 d (hd ▸ hx) he with hle | ⟨b, hl, -⟩
    · exact hle
    · rw [hb] at hl
      cases hl
  few := by
    rw [List.length_append]
    exact hl
  evicted := by
    obtain ⟨old, hg, hold⟩ := k.evicted
    refine ⟨old, ?_, hold⟩
    rw [LimiterHistory.grants_append, LimiterHistory.grants_granted, hg, List.append_assoc]
  blocked s d hm he := by
    rcases List.mem_append.mp hm with hm | hm
    · exact k.blocked s d hm he
    · cases List.mem_singleton.mp hm

theorem penalize (k : Knows l h now) (d : Span) :
    Knows (l.penalize now d) (h ++ [(now, .paused d)]) now := by
  obtain ⟨hq, hg, hkeeps, hends⟩ := penalize_cases l now d
  have hgrants : LimiterHistory.grants (h ++ [(now, .paused d)]) = LimiterHistory.grants h := by
    rw [LimiterHistory.grants_append, LimiterHistory.grants_paused, List.append_nil]
  refine ⟨k.ordered_snoc _, k.past_snoc _, ?_, ?_, ?_, ?_, ?_⟩
  · rw [hq, hgrants]
    exact k.spaced
  · refine List.pairwise_append.mpr ⟨k.heeded, List.pairwise_singleton _ _, ?_⟩
    intro x _ y hy _ _ hgranted
    cases List.mem_singleton.mp hy
    cases hgranted
  · rw [hq, hg]
    exact k.few
  · rw [hgrants, hg, hq]
    exact k.evicted
  · intro s e hm he
    rcases List.mem_append.mp hm with hm | hm
    · rcases k.blocked s e hm he with hle | ⟨b, hb, hle⟩
      · exact .inl hle
      · obtain ⟨b', hb', hbb⟩ := hkeeps b hb
        exact .inr ⟨b', hb', Nat.le_trans hle hbb⟩
    · cases List.mem_singleton.mp hm
      exact .inr (hends he)

theorem tryGrant (k : Knows l h now) {a : Admission} {l' : Limiter}
    (ht : l.tryGrant now = .ok (a, l')) :
    Knows l' (h ++ if a = .granted then [(now, .granted)] else []) now := by
  rcases tryGrant_cases ht with ⟨b, _, _, rfl, rfl⟩ | ⟨hb, kept, hk, hcase⟩
  · simpa using k
  · have hclear := (k.unblock hb).evict hk
    rcases hcase with ⟨hlen, rfl, rfl⟩ | ⟨hlen, rfl, wait, -, rfl⟩
    · simpa using hclear.grant rfl hlen
    · simpa using hclear

theorem act (k : Knows l h now) {a : LimiterAct} {mark : Option LimiterMark} {l' : Limiter}
    (ha : l.act now a = .ok (mark, l')) : Knows l' (h ++ mark.toList.map (now, ·)) now := by
  cases a with
  | ask =>
    obtain ⟨admission, ht, rfl⟩ := act_ask ha
    have := k.tryGrant ht
    by_cases hg : admission = .granted
    · simpa [hg] using this
    · simpa [hg] using this
  | penalize d =>
    cases ha
    exact k.penalize d
  | available =>
    obtain ⟨n, ht, rfl⟩ := act_available ha
    rcases available_cases ht with rfl | ⟨kept, hk, rfl⟩
    · simpa using k
    · simpa using k.evict hk
  | timeUntilAvailable =>
    obtain ⟨d, ht, rfl⟩ := act_timeUntilAvailable ha
    obtain ⟨kept, hk, rfl⟩ := timeUntilAvailable_cases ht
    simpa using k.evict hk

theorem run (k : Knows l h now) {acts : List (Instant × LimiterAct)}
    (hclock : (acts.map (·.1)).Pairwise (· ≤ ·)) (hlater : ∀ x ∈ acts, now ≤ x.1)
    {l' : Limiter} {h' : LimiterHistory} (hr : l.run h acts = .ok (l', h')) :
    l'.quota = l.quota ∧ ∃ now', Knows l' h' now' := by
  induction acts generalizing l h now with
  | nil =>
    cases hr
    exact ⟨rfl, now, k⟩
  | cons x acts ih =>
    obtain ⟨t, a⟩ := x
    obtain ⟨⟨mark, l₁⟩, ha, hr⟩ := except_bind_ok.mp hr
    obtain ⟨ht, hclock⟩ := List.pairwise_cons.mp hclock
    have hstep := (k.later (hlater _ List.mem_cons_self)).act ha
    obtain ⟨hq, hk⟩ := ih hstep hclock (fun x hx => ht _ (List.mem_map_of_mem hx)) hr
    exact ⟨hq.trans (act_quota ha), hk⟩

end Knows

/-- However a limiter is used, it grants no more slots than the quota allows, and none in a pause. -/
theorem run_spaced_heeded (q : Quota) {acts : List (Instant × LimiterAct)}
    (hclock : (acts.map (·.1)).Pairwise (· ≤ ·)) {l : Limiter} {h : LimiterHistory}
    (hr : (ofQuota q).run [] acts = .ok (l, h)) :
    l.grants.Pairwise (· ≤ ·) ∧ l.grants.length ≤ q.limit ∧ l.grants <:+ LimiterHistory.grants h ∧
      LimiterHistory.Spaced q (LimiterHistory.grants h) ∧
      (h.map (·.1)).Pairwise (· ≤ ·) ∧ LimiterHistory.Heeded h := by
  obtain ⟨hq, now, k⟩ := (Knows.nothing q ⟨0⟩).run hclock (fun _ _ => Nat.zero_le _) hr
  have hq : l.quota = q := hq
  obtain ⟨old, hg, -⟩ := k.evicted
  have hsorted := LimiterHistory.grants_ordered k.ordered
  refine ⟨?_, hq ▸ k.few, ⟨old, hg.symm⟩, hq ▸ k.spaced, k.ordered, k.heeded⟩
  rw [hg] at hsorted
  exact (List.pairwise_append.mp hsorted).2.1

/-- One slot every two nanoseconds, and a pause of three from the second nanosecond on. -/
theorem run_spaced_heeded_paused :
    ∃ (q : Quota) (acts : List (Instant × LimiterAct)) (l : Limiter) (h : LimiterHistory),
      (acts.map (·.1)).Pairwise (· ≤ ·) ∧ (ofQuota q).run [] acts = .ok (l, h) ∧
      LimiterHistory.grants h = [⟨0⟩, ⟨5⟩] ∧ l.grants = [⟨5⟩] ∧
      LimiterHistory.Spaced q (LimiterHistory.grants h) ∧ LimiterHistory.Heeded h := by
  let q : Quota := ⟨1, .ofNanos 2, by decide, by decide⟩
  let acts : List (Instant × LimiterAct) :=
    [(⟨0⟩, .ask), (⟨1⟩, .ask), (⟨2⟩, .penalize (.ofNanos 3)), (⟨2⟩, .ask), (⟨3⟩, .available),
      (⟨4⟩, .timeUntilAvailable), (⟨5⟩, .ask)]
  have hclock : (acts.map (·.1)).Pairwise (· ≤ ·) := by decide
  have hr : (ofQuota q).run [] acts =
      .ok (⟨q, [⟨5⟩], none⟩, [(⟨0⟩, .granted), (⟨2⟩, .paused (.ofNanos 3)), (⟨5⟩, .granted)]) := by
    decide +kernel
  obtain ⟨-, -, -, hspaced, -, hheeded⟩ := run_spaced_heeded q hclock hr
  exact ⟨q, acts, _, _, hclock, hr, rfl, rfl, hspaced, hheeded⟩

end Limiter

end CatalogClient
