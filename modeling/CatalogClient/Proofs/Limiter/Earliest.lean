import CatalogClient.Proofs.Pipeline.Faults
/-!
When a limiter opens: a slot is granted from the instant at which the pause in force is over and the
oldest of a full window has left it, and whoever asks before is sent away to one of these two.
-/

namespace CatalogClient.Limiter

variable {l l' : Limiter} {now : Instant} {d : Span}

def blockEnd (l : Limiter) : Nat := (l.blockedUntil.map (·.nanos)).getD 0

/-- When the first slot of a full window leaves it. -/
def windowEnd (l : Limiter) : Nat :=
  if l.grants.length < l.quota.limit then 0
  else (l.grants.head?.map fun g => g.nanos + l.quota.period.nanos).getD 0

def opening (l : Limiter) : Nat := max l.blockEnd l.windowEnd

/-- No slot in the window has a period that ends beyond the clock. -/
def InTime (l : Limiter) : Prop :=
  ∀ g ∈ l.grants, g.nanos + l.quota.period.nanos < Instant.horizon

theorem blockEnd_le_iff {n : Nat} : l.blockEnd ≤ n ↔ ∀ b, l.blockedUntil = some b → b.nanos ≤ n := by
  unfold blockEnd
  cases l.blockedUntil <;> simp

theorem windowEnd_of_room (h : l.grants.length < l.quota.limit) : l.windowEnd = 0 := if_pos h

theorem windowEnd_of_full {g : Instant} (h : l.quota.limit ≤ l.grants.length)
    (hg : l.grants.head? = some g) : l.windowEnd = g.nanos + l.quota.period.nanos := by
  rw [windowEnd, if_neg (Nat.not_lt.mpr h), hg]
  rfl

theorem exists_head (h : l.quota.limit ≤ l.grants.length) : ∃ g, l.grants.head? = some g := by
  have hpos := l.quota.limit_pos
  cases hg : l.grants with
  | nil =>
    rw [hg, List.length_nil] at h
    omega
  | cons g gs => exact ⟨g, rfl⟩

theorem InTime.evict (h : l.InTime) (now : Instant) :
    ∃ kept, evict l.quota.period now l.grants = .ok kept := by
  cases hk : Limiter.evict l.quota.period now l.grants with
  | ok kept => exact ⟨kept, rfl⟩
  | error fault =>
    obtain ⟨g, hg, hlate⟩ := evict_error hk
    exact absurd (h g hg) (Nat.not_lt.mpr hlate)

theorem InTime.tryGrant (h : l.InTime) (now : Instant) : ∃ a l', l.tryGrant now = .ok (a, l') := by
  cases ht : l.tryGrant now with
  | ok r => exact ⟨r.1, r.2, rfl⟩
  | error fault =>
    obtain ⟨g, hg, hlate⟩ := tryGrant_error ht
    exact absurd (h g hg) (Nat.not_lt.mpr hlate)

theorem windowWait_of_full {q : Quota} {grants : List Instant} {g : Instant} {wait : Span}
    (h : q.limit ≤ grants.length) (hg : grants.head? = some g)
    (hw : windowWait q now grants = .ok wait) :
    ∃ passed, g.add? q.period = some passed ∧ wait = passed.since now := by
  obtain ⟨gs, rfl⟩ := List.head?_eq_some_iff.mp hg
  rw [windowWait.eq_def, if_neg (Nat.not_lt.mpr h)] at hw
  cases hp : g.add? q.period with
  | none =>
    simp only [hp] at hw
    cases hw
  | some passed =>
    simp only [hp] at hw
    cases hw
    exact ⟨passed, rfl, rfl⟩

/-- A window from which something is evicted has been open since. -/
theorem evict_cases (hl : l.Bounded) {kept : List Instant}
    (h : evict l.quota.period now l.grants = .ok kept) :
    kept = l.grants ∨ kept.length < l.quota.limit ∧ l.windowEnd ≤ now.nanos := by
  obtain ⟨old, hgs, hold, -⟩ := evict_ok h
  cases old with
  | nil => exact .inl hgs.symm
  | cons g old =>
    right
    have hfew := hl.few
    rw [hgs, List.length_append, List.length_cons] at hfew
    refine ⟨by omega, ?_⟩
    by_cases hroom : l.grants.length < l.quota.limit
    · rw [windowEnd_of_room hroom]
      exact Nat.zero_le _
    · rw [windowEnd_of_full (Nat.le_of_not_lt hroom) (g := g) (by rw [hgs]; rfl)]
      exact hold g List.mem_cons_self

theorem windowEnd_of_evicted (hl : l.Bounded) {kept : List Instant}
    (h : evict l.quota.period now l.grants = .ok kept) (hroom : kept.length < l.quota.limit) :
    l.windowEnd ≤ now.nanos := by
  rcases evict_cases hl h with rfl | ⟨-, hle⟩
  · rw [windowEnd_of_room hroom]
    exact Nat.zero_le _
  · exact hle

theorem evict_full (hl : l.Bounded) {kept : List Instant}
    (h : evict l.quota.period now l.grants = .ok kept) (hfull : l.quota.limit ≤ kept.length) :
    kept = l.grants ∧ now.nanos < l.windowEnd ∧
      ∃ g, kept.head? = some g ∧ l.windowEnd = g.nanos + l.quota.period.nanos := by
  have hkept : kept = l.grants := (evict_cases hl h).resolve_right fun hroom => by omega
  obtain ⟨-, -, -, hhead⟩ := evict_ok h
  obtain ⟨g, hg⟩ := exists_head (hkept ▸ hfull)
  have hend := windowEnd_of_full (hkept ▸ hfull) hg
  refine ⟨hkept, ?_, g, hkept ▸ hg, hend⟩
  rw [hend]
  exact hhead g (hkept ▸ hg)

theorem opening_of_granted (hl : l.Bounded) (h : l.tryGrant now = .ok (.granted, l')) :
    l.opening ≤ now.nanos := by
  rcases tryGrant_cases h with ⟨_, _, _, hd, _⟩ | ⟨hpast, kept, hk, ⟨hlt, -, -⟩ | ⟨_, _, _, _, hd⟩⟩
  · cases hd
  · exact Nat.max_le.mpr ⟨blockEnd_le_iff.mpr hpast, windowEnd_of_evicted hl hk hlt⟩
  · cases hd

theorem unpaused_of_granted (h : l.tryGrant now = .ok (.granted, l')) :
    l'.quota = l.quota ∧ l'.blockedUntil = none := by
  rcases tryGrant_cases h with ⟨_, _, _, hd, _⟩ | ⟨-, kept, -, ⟨-, -, rfl⟩ | ⟨_, _, _, _, hd⟩⟩
  · cases hd
  · exact ⟨rfl, rfl⟩
  · cases hd

/-- The two ways to be refused. -/
theorem refused_cases (hl : l.Bounded) (h : l.tryGrant now = .ok (.refused d, l')) :
    now.nanos < now.nanos + d.nanos ∧
      ((now.nanos + d.nanos = l.blockEnd ∧ l' = l) ∨
        l.blockEnd ≤ now.nanos ∧ now.nanos + d.nanos = l.windowEnd ∧
          l' = { l with blockedUntil := none }) := by
  rcases tryGrant_cases h with ⟨b, hb, hlt, hd, rfl⟩ | ⟨hpast, kept, hk, ⟨-, hd, -⟩ |
    ⟨hfull, rfl, wait, hw, hd⟩⟩
  · cases hd
    have hlt : now.nanos < b.nanos := hlt
    rw [Instant.nanos_since (hl.soon b hb)]
    exact ⟨by omega, .inl ⟨by simp only [blockEnd, hb, Option.map_some, Option.getD_some]; omega, rfl⟩⟩
  · cases hd
  · cases hd
    obtain ⟨rfl, hshut, g, hg, hend⟩ := evict_full hl hk hfull
    obtain ⟨passed, hp, rfl⟩ := windowWait_of_full hfull hg hw
    obtain ⟨hsum, hin⟩ := Instant.add?_some hp
    have hlate : passed.nanos = l.windowEnd := hsum.trans hend.symm
    rw [Instant.nanos_since hin]
    exact ⟨by omega, .inr ⟨blockEnd_le_iff.mpr hpast, by omega, rfl⟩⟩

theorem opening_of_refused (hl : l.Bounded) (h : l.tryGrant now = .ok (.refused d, l')) :
    now.nanos + d.nanos ≤ l.opening ∧ l'.opening = l.opening := by
  obtain ⟨hpos, ⟨hd, rfl⟩ | ⟨hblock, hd, rfl⟩⟩ := refused_cases hl h
  · exact ⟨hd ▸ Nat.le_max_left .., rfl⟩
  · refine ⟨hd ▸ Nat.le_max_right .., ?_⟩
    change max 0 l.windowEnd = max l.blockEnd l.windowEnd
    omega

theorem InTime.refused (ht : l.InTime) (hl : l.Bounded)
    (h : l.tryGrant now = .ok (.refused d, l')) : l'.InTime := by
  obtain ⟨-, ⟨-, rfl⟩ | ⟨-, -, rfl⟩⟩ := refused_cases hl h
  · exact ht
  · exact ht

theorem granted_of_open (hl : l.Bounded) (ht : l.InTime) (h : l.opening ≤ now.nanos) :
    ∃ l', l.tryGrant now = .ok (.granted, l') := by
  obtain ⟨a, l', hg⟩ := ht.tryGrant now
  cases a with
  | granted => exact ⟨l', hg⟩
  | refused d =>
    have hpos := (refused_cases hl hg).1
    have hle := (opening_of_refused hl hg).1
    omega

theorem windowWait_eq (hl : l.Bounded) {kept : List Instant} {wait : Span}
    (hk : evict l.quota.period now l.grants = .ok kept)
    (hw : windowWait l.quota now kept = .ok wait) :
    now.nanos + wait.nanos = max now.nanos l.windowEnd := by
  by_cases hroom : kept.length < l.quota.limit
  · rw [windowWait.eq_def, if_pos hroom] at hw
    cases hw
    exact (Nat.max_eq_left (windowEnd_of_evicted hl hk hroom)).symm
  · have hfull := Nat.le_of_not_lt hroom
    obtain ⟨rfl, hshut, g, hg, hend⟩ := evict_full hl hk hfull
    obtain ⟨passed, hp, rfl⟩ := windowWait_of_full hfull hg hw
    obtain ⟨hsum, hin⟩ := Instant.add?_some hp
    have hlate : passed.nanos = l.windowEnd := hsum.trans hend.symm
    rw [Instant.nanos_since hin, hlate, Nat.max_eq_right (Nat.le_of_lt hshut)]
    omega

/-- The time until a slot is available leads to the opening, or is nothing. -/
theorem timeUntilAvailable_eq (hl : l.Bounded) (h : l.timeUntilAvailable now = .ok (d, l')) :
    now.nanos + d.nanos = max now.nanos l.opening := by
  obtain ⟨kept, hk, h⟩ := except_bind_ok.mp h
  obtain ⟨wait, hw, h⟩ := except_bind_ok.mp h
  have hwindow := windowWait_eq hl hk hw
  cases h
  rw [Span.nanos_max, opening]
  cases hb : l.blockedUntil with
  | none =>
    simp only [blockEnd, hb, Span.zero, Option.map_none, Option.getD_none]
    omega
  | some b =>
    simp only [blockEnd, hb, Option.map_some, Option.getD_some]
    rw [Instant.nanos_since (hl.soon b hb)]
    omega

theorem InTime.timeUntilAvailable (h : l.InTime) (now : Instant) :
    ∃ d l', l.timeUntilAvailable now = .ok (d, l') := by
  obtain ⟨kept, hk⟩ := h.evict now
  obtain ⟨old, hgs, -, -⟩ := evict_ok hk
  cases hw : windowWait l.quota now kept with
  | ok wait =>
    exact ⟨_, _, except_bind_ok.mpr ⟨kept, hk, except_bind_ok.mpr ⟨wait, hw, rfl⟩⟩⟩
  | error fault =>
    obtain ⟨g, hg, hlate⟩ := windowWait_error hw
    exact absurd (h g (hgs ▸ List.mem_append_right _ hg)) (Nat.not_lt.mpr hlate)

theorem opening_evict (hl : l.Bounded) {kept : List Instant}
    (h : evict l.quota.period now l.grants = .ok kept) :
    max now.nanos (opening { l with grants := kept }) = max now.nanos l.opening := by
  rcases evict_cases hl h with rfl | ⟨hroom, hle⟩
  · rfl
  · have hblock : blockEnd { l with grants := kept } = l.blockEnd := rfl
    have hwindow : windowEnd { l with grants := kept } = 0 := windowEnd_of_room hroom
    rw [opening, opening, hblock, hwindow]
    omega

theorem opening_penalize (l : Limiter) (now : Instant) (d : Span) :
    l.opening ≤ (l.penalize now d).opening := by
  obtain ⟨hq, hg, hlonger, -⟩ := penalize_cases l now d
  have hwindow : (l.penalize now d).windowEnd = l.windowEnd := by simp only [windowEnd, hq, hg]
  have hblock : l.blockEnd ≤ (l.penalize now d).blockEnd := by
    refine blockEnd_le_iff.mpr fun b hb => ?_
    obtain ⟨b', hb', hle⟩ := hlonger b hb
    exact Nat.le_trans hle (blockEnd_le_iff.mp (Nat.le_refl _) b' hb')
  rw [opening, opening, hwindow]
  omega

/-- What is done with a limiter never lets it open sooner, and only a slot granted or a pause imposed
lets it open later. -/
theorem opening_act (hl : l.Bounded) {a : LimiterAct} {mark : Option LimiterMark}
    (h : l.act now a = .ok (mark, l')) : max now.nanos l.opening ≤ max now.nanos l'.opening ∧
      (mark = none → max now.nanos l'.opening = max now.nanos l.opening) := by
  cases a with
  | ask =>
    obtain ⟨admission, ht, rfl⟩ := act_ask h
    cases admission with
    | granted =>
      have hopen := opening_of_granted hl ht
      refine ⟨by omega, fun hmark => ?_⟩
      rw [if_pos rfl] at hmark
      cases hmark
    | refused d =>
      rw [(opening_of_refused hl ht).2]
      exact ⟨Nat.le_refl _, fun _ => rfl⟩
  | penalize d =>
    cases h
    have hlater := opening_penalize l now d
    exact ⟨by omega, fun hmark => by cases hmark⟩
  | available =>
    obtain ⟨n, ht, -⟩ := act_available h
    rcases available_cases ht with rfl | ⟨kept, hk, rfl⟩
    · exact ⟨Nat.le_refl _, fun _ => rfl⟩
    · rw [opening_evict hl hk]
      exact ⟨Nat.le_refl _, fun _ => rfl⟩
  | timeUntilAvailable =>
    obtain ⟨d, ht, -⟩ := act_timeUntilAvailable h
    obtain ⟨kept, hk, rfl⟩ := timeUntilAvailable_cases ht
    rw [opening_evict hl hk]
    exact ⟨Nat.le_refl _, fun _ => rfl⟩

end CatalogClient.Limiter
