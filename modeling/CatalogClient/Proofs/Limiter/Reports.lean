import CatalogClient.Proofs.Limiter.Earliest
/-!
What a limiter says of itself, against what it does when it is asked: it grants as many slots at once
as it announces, the next of them after the wait that it announces, and a look at it, though it lets
go of what is over, is nothing that a later caller could tell.
-/

namespace CatalogClient

inductive LimiterReply
  | admission (a : Admission)
  | paused
  | slots (n : Nat)
  | wait (d : Span)
  deriving DecidableEq, Repr

def LimiterReply.isGranted (r : LimiterReply) : Bool := r = .admission .granted

def LimiterAct.isLook : LimiterAct → Bool
  | .ask | .penalize _ => false
  | .available | .timeUntilAvailable => true

namespace Limiter

def reply (l : Limiter) (now : Instant) : LimiterAct → Except Fault (LimiterReply × Limiter)
  | .ask => do
    let (a, l) ← l.tryGrant now
    return (.admission a, l)
  | .penalize d => return (.paused, l.penalize now d)
  | .available => do
    let (n, l) ← l.available now
    return (.slots n, l)
  | .timeUntilAvailable => do
    let (d, l) ← l.timeUntilAvailable now
    return (.wait d, l)

def replies (l : Limiter) :
    List (Instant × LimiterAct) → Except Fault (List LimiterReply × Limiter)
  | [] => .ok ([], l)
  | (now, a) :: rest => do
    let (r, l) ← l.reply now a
    let (rs, l) ← l.replies rest
    return (r :: rs, l)

/-- `n` slots are announced at `now`, and a wait of `d`. -/
structure Reports (l : Limiter) (now : Instant) (n : Nat) (d : Span) : Prop where
  announced : (∃ l', l.available now = .ok (n, l')) ∧ ∃ l', l.timeUntilAvailable now = .ok (d, l')
  counted : ∀ m, ∃ rs l', l.replies (List.replicate m (now, .ask)) = .ok (rs, l') ∧
    rs.map (·.isGranted) = List.replicate (min n m) true ++ List.replicate (m - n) false
  reached : ∃ t l', now.add? d = some t ∧ l.tryGrant t = .ok (.granted, l')
  least : ∀ e, e < d → ∃ t wait l', now.add? e = some t ∧ l.tryGrant t = .ok (.refused wait, l')
  open_iff : d = .zero ↔ 0 < n
  refused : ∀ wait l', l.tryGrant now = .ok (.refused wait, l') → 0 < wait.nanos ∧ wait ≤ d

/-- Whoever looks from `now` on, as often as they like, has an answer, and all that is done later goes
as it would have gone. -/
def Unmoved (l : Limiter) (now : Instant) : Prop :=
  ∀ looks later : List (Instant × LimiterAct), (∀ x ∈ looks, x.2.isLook) →
    (now :: (looks ++ later).map (·.1)).Pairwise (· ≤ ·) →
    ∃ rs l', l.replies looks = .ok (rs, l') ∧
      (l'.replies later).map (·.1) = (l.replies later).map (·.1)

variable {l l' : Limiter} {now : Instant} {r : LimiterReply} {a : LimiterAct} {n : Nat} {d : Span}

theorem replies_cons {x : Instant × LimiterAct} {rest : List (Instant × LimiterAct)}
    {rs : List LimiterReply} {l₂ : Limiter} (hr : l.reply x.1 x.2 = .ok (r, l'))
    (hrs : l'.replies rest = .ok (rs, l₂)) : l.replies (x :: rest) = .ok (r :: rs, l₂) :=
  except_bind_ok.mpr ⟨_, hr, except_bind_ok.mpr ⟨_, hrs, rfl⟩⟩

theorem map_replies_cons {x : Instant × LimiterAct} {rest : List (Instant × LimiterAct)}
    (hr : l.reply x.1 x.2 = .ok (r, l')) :
    (l.replies (x :: rest)).map (·.1) = ((l'.replies rest).map (·.1)).map (r :: ·) := by
  cases hrs : l'.replies rest with
  | error fault =>
    rw [replies, hr]
    change Except.map _ (l'.replies rest >>= _) = _
    rw [hrs]
    rfl
  | ok y =>
    rw [replies_cons hr hrs]
    rfl

theorem act_of_reply (h : l.reply now a = .ok (r, l')) : ∃ mark, l.act now a = .ok (mark, l') := by
  cases a with
  | penalize d =>
    cases h
    exact ⟨_, rfl⟩
  | ask =>
    obtain ⟨x, hx, h⟩ := except_bind_ok.mp h
    cases h
    exact ⟨_, except_bind_ok.mpr ⟨x, hx, rfl⟩⟩
  | available =>
    obtain ⟨x, hx, h⟩ := except_bind_ok.mp h
    cases h
    exact ⟨_, except_bind_ok.mpr ⟨x, hx, rfl⟩⟩
  | timeUntilAvailable =>
    obtain ⟨x, hx, h⟩ := except_bind_ok.mp h
    cases h
    exact ⟨_, except_bind_ok.mpr ⟨x, hx, rfl⟩⟩

theorem available_inv (h : l.available now = .ok (n, l')) :
    (∃ b, l.blockedUntil = some b ∧ now < b ∧ n = 0 ∧ l' = l) ∨
      (∀ b, l.blockedUntil = some b → b ≤ now) ∧ ∃ kept,
        evict l.quota.period now l.grants = .ok kept ∧ n = l.quota.limit - kept.length ∧
          l' = { l with grants := kept } := by
  simp only [available, block?] at h
  split at h
  · rename_i b hb
    obtain ⟨hb, hlt⟩ := Option.filter_eq_some_iff.mp hb
    cases h
    exact .inl ⟨b, hb, of_decide_eq_true hlt, rfl, rfl⟩
  · rename_i hnone
    obtain ⟨kept, hk, h⟩ := except_bind_ok.mp h
    cases h
    refine .inr ⟨?_, kept, hk, rfl, rfl⟩
    intro b hb
    have hn : ¬ now < b := by simpa using Option.filter_eq_none_iff.mp hnone b hb
    exact Nat.le_of_not_lt hn

theorem InTime.available (h : l.InTime) (now : Instant) : ∃ n l', l.available now = .ok (n, l') := by
  obtain ⟨kept, hk⟩ := h.evict now
  cases hb : l.block? now with
  | some b => exact ⟨0, l, by simp only [Limiter.available, hb]⟩
  | none =>
    refine ⟨l.quota.limit - kept.length, { l with grants := kept }, ?_⟩
    simp only [Limiter.available, hb]
    exact except_bind_ok.mpr ⟨kept, hk, rfl⟩

theorem available_pos_iff (hl : l.Bounded) (h : l.available now = .ok (n, l')) :
    0 < n ↔ l.opening ≤ now.nanos := by
  rcases available_inv h with ⟨b, hb, hlt, rfl, -⟩ | ⟨hpast, kept, hk, rfl, -⟩
  · refine ⟨fun hn => absurd hn (Nat.lt_irrefl 0), fun hopen => ?_⟩
    have hend := blockEnd_le_iff.mp (Nat.le_trans (Nat.le_max_left ..) hopen) b hb
    exact absurd hlt (Nat.not_lt.mpr hend)
  · constructor
    · intro hn
      exact Nat.max_le.mpr ⟨blockEnd_le_iff.mpr hpast, windowEnd_of_evicted hl hk (by omega)⟩
    · intro hopen
      refine Nat.sub_pos_of_lt (Nat.lt_of_not_le fun hfull => ?_)
      have hshut := (evict_full hl hk hfull).2.1
      have hwindow : l.windowEnd ≤ l.opening := Nat.le_max_right ..
      omega

theorem evict_of_head {period : Span} {g : Instant} {gs : List Instant}
    (hin : g.nanos + period.nanos < Instant.horizon) (h : now.nanos < g.nanos + period.nanos) :
    evict period now (g :: gs) = .ok (g :: gs) := by
  have hadd : g.add? period = some ⟨g.nanos + period.nanos⟩ := if_pos hin
  have hshut : ¬ (⟨g.nanos + period.nanos⟩ : Instant) ≤ now := Nat.not_le.mpr h
  simp only [evict, hadd, if_neg hshut]

theorem evict_granted (ht : l.InTime) (hin : now.nanos + l.quota.period.nanos < Instant.horizon)
    {kept : List Instant} (hk : evict l.quota.period now l.grants = .ok kept) :
    evict l.quota.period now (kept ++ [now]) = .ok (kept ++ [now]) := by
  obtain ⟨old, hgs, -, hhead⟩ := evict_ok hk
  have hpos := l.quota.period_pos
  cases kept with
  | nil => exact evict_of_head hin (by omega)
  | cons g kept => exact evict_of_head (ht g (by simp [hgs])) (hhead g rfl)

theorem available_of_granted (ht : l.InTime)
    (hin : now.nanos + l.quota.period.nanos < Instant.horizon)
    {n₀ : Limiter} (h : l.available now = .ok (n + 1, n₀)) (hg : l.tryGrant now = .ok (.granted, l')) :
    ∃ l'', l'.available now = .ok (n, l'') := by
  rcases tryGrant_cases hg with ⟨_, _, _, hd, _⟩ | ⟨-, kept, hk, ⟨-, -, rfl⟩ | ⟨_, _, _, _, hd⟩⟩
  · cases hd
  · rcases available_inv h with ⟨_, _, _, hn, _⟩ | ⟨-, kept', hk', hn, -⟩
    · cases hn
    · cases hk.symm.trans hk'
      have hslots : l.quota.limit - (kept ++ [now]).length = n := by
        rw [List.length_append, List.length_singleton]
        omega
      rw [← hslots]
      exact ⟨_, except_bind_ok.mpr ⟨_, evict_granted ht hin hk, rfl⟩⟩
  · cases hd

theorem InTime.granted (ht : l.InTime) (hin : now.nanos + l.quota.period.nanos < Instant.horizon)
    (h : l.tryGrant now = .ok (.granted, l')) : l'.InTime := by
  rcases tryGrant_cases h with ⟨_, _, _, hd, _⟩ | ⟨-, kept, hk, ⟨-, -, rfl⟩ | ⟨_, _, _, _, hd⟩⟩
  · cases hd
  · obtain ⟨old, hgs, -, -⟩ := evict_ok hk
    intro g hg
    rcases List.mem_append.mp hg with hg | hg
    · exact ht g (hgs ▸ List.mem_append_right _ hg)
    · cases List.mem_singleton.mp hg
      exact hin
  · cases hd

/-- The slots announced are granted one after the other, and none after them. -/
theorem replies_asks (hl : l.Bounded) (ht : l.InTime)
    (hin : now.nanos + l.quota.period.nanos < Instant.horizon)
    (h : l.available now = .ok (n, l')) (m : Nat) :
    ∃ rs l'', l.replies (List.replicate m (now, .ask)) = .ok (rs, l'') ∧
      rs.map (·.isGranted) = List.replicate (min n m) true ++ List.replicate (m - n) false := by
  -- a grant leaves one slot less announced, and a refusal leaves none announced, as before
  induction m generalizing l l' n with
  | zero => exact ⟨[], l, rfl, by simp⟩
  | succ m ih =>
    have hopen := available_pos_iff hl h
    cases n with
    | succ n =>
      obtain ⟨l₁, hg⟩ := granted_of_open hl ht (hopen.mp (Nat.succ_pos n))
      obtain ⟨l₂, hn⟩ := available_of_granted ht hin h hg
      have hin₁ : now.nanos + l₁.quota.period.nanos < Instant.horizon :=
        (unpaused_of_granted hg).1 ▸ hin
      obtain ⟨rs, l₃, hrs, hgranted⟩ := ih (hl.tryGrant hg) (ht.granted hin hg) hin₁ hn
      have hr : l.reply now .ask = .ok (.admission .granted, l₁) := except_bind_ok.mpr ⟨_, hg, rfl⟩
      refine ⟨_, _, replies_cons hr hrs, ?_⟩
      rw [List.map_cons, hgranted, Nat.succ_min_succ, Nat.succ_sub_succ, List.replicate_succ]
      rfl
    | zero =>
      obtain ⟨a, l₁, hg⟩ := ht.tryGrant now
      cases a with
      | granted => exact absurd (hopen.mpr (opening_of_granted hl hg)) (Nat.lt_irrefl 0)
      | refused wait =>
        have ht₁ := ht.refused hl hg
        have hl₁ := hl.tryGrant hg
        obtain ⟨n, l₂, hn⟩ := ht₁.available now
        have hn₀ : n = 0 := by
          have hsame := available_pos_iff hl₁ hn
          rw [(opening_of_refused hl hg).2] at hsame
          omega
        subst hn₀
        have hr : l.reply now .ask = .ok (.admission (.refused wait), l₁) :=
          except_bind_ok.mpr ⟨_, hg, rfl⟩
        obtain ⟨mark, hact⟩ := act_of_reply hr
        obtain ⟨rs, l₃, hrs, hgranted⟩ := ih hl₁ ht₁ (act_quota hact ▸ hin) hn
        refine ⟨_, _, replies_cons hr hrs, ?_⟩
        rw [List.map_cons, hgranted]
        simp [LimiterReply.isGranted, List.replicate_succ]

theorem opening_lt_horizon (hl : l.Bounded) (ht : l.InTime) : l.opening < Instant.horizon := by
  have hnow : 0 < Instant.horizon := by decide
  refine Nat.max_lt.mpr ⟨?_, ?_⟩
  · cases hb : l.blockedUntil with
    | none => simpa [blockEnd, hb] using hnow
    | some b => simpa [blockEnd, hb] using hl.soon b hb
  · by_cases hroom : l.grants.length < l.quota.limit
    · rwa [windowEnd_of_room hroom]
    · obtain ⟨g, hg⟩ := exists_head (Nat.le_of_not_lt hroom)
      rw [windowEnd_of_full (Nat.le_of_not_lt hroom) hg]
      exact ht g (List.mem_of_head? hg)

theorem Reports.intro (hl : l.Bounded) (ht : l.InTime)
    (hin : now.nanos + l.quota.period.nanos < Instant.horizon) : ∃ n d, l.Reports now n d := by
  obtain ⟨n, ln, hn⟩ := ht.available now
  obtain ⟨d, ld, hd⟩ := ht.timeUntilAvailable now
  have hwait := timeUntilAvailable_eq hl hd
  have hopen := available_pos_iff hl hn
  have hsoon := opening_lt_horizon hl ht
  refine ⟨n, d, ⟨⟨ln, hn⟩, ld, hd⟩, replies_asks hl ht hin hn, ?_, ?_, ?_, ?_⟩
  · have hadd : now.add? d = some ⟨now.nanos + d.nanos⟩ := if_pos (by omega)
    have hlate : l.opening ≤ (⟨now.nanos + d.nanos⟩ : Instant).nanos := hwait ▸ Nat.le_max_right ..
    obtain ⟨l', hg⟩ := granted_of_open hl ht hlate
    exact ⟨_, l', hadd, hg⟩
  · intro e he
    have he : e.nanos < d.nanos := he
    have hadd : now.add? e = some ⟨now.nanos + e.nanos⟩ := if_pos (by omega)
    obtain ⟨a, l', hg⟩ := ht.tryGrant ⟨now.nanos + e.nanos⟩
    cases a with
    | refused wait => exact ⟨_, wait, l', hadd, hg⟩
    | granted =>
      have hearly : l.opening ≤ now.nanos + e.nanos := opening_of_granted hl hg
      omega
  · rw [hopen]
    constructor
    · rintro rfl
      have hzero : Span.zero.nanos = 0 := rfl
      omega
    · intro hle
      apply Span.eq_of_nanos
      change d.nanos = 0
      omega
  · intro wait l' hg
    obtain ⟨hpos, -⟩ := refused_cases hl hg
    obtain ⟨hle, -⟩ := opening_of_refused hl hg
    have hwaits : wait.nanos ≤ d.nanos := by omega
    exact ⟨by omega, hwaits⟩

/-- `l'` is `l` without slots that have left the window. -/
structure Trims (l l' : Limiter) (now : Instant) : Prop where
  quota : l'.quota = l.quota
  blocked : l'.blockedUntil = l.blockedUntil
  grants : ∃ old, l.grants = old ++ l'.grants ∧ ∀ g ∈ old,
    g.nanos + l.quota.period.nanos ≤ now.nanos ∧ g.nanos + l.quota.period.nanos < Instant.horizon

theorem evict_append {period : Span} {old gs : List Instant} (h : ∀ g ∈ old,
    g.nanos + period.nanos ≤ now.nanos ∧ g.nanos + period.nanos < Instant.horizon) :
    evict period now (old ++ gs) = evict period now gs := by
  induction old with
  | nil => rfl
  | cons g old ih =>
    obtain ⟨hle, hin⟩ := h g List.mem_cons_self
    have hadd : g.add? period = some ⟨g.nanos + period.nanos⟩ := if_pos hin
    have hover : (⟨g.nanos + period.nanos⟩ : Instant) ≤ now := hle
    rw [List.cons_append, evict, hadd]
    simp only [if_pos hover]
    exact ih fun x hx => h x (List.mem_cons_of_mem _ hx)

namespace Trims

theorem refl (l : Limiter) (now : Instant) : l.Trims l now := ⟨rfl, rfl, [], rfl, by simp⟩

theorem later (h : l.Trims l' now) {t : Instant} (ht : now ≤ t) : l.Trims l' t := by
  obtain ⟨old, hgs, hold⟩ := h.grants
  exact ⟨h.quota, h.blocked, old, hgs, fun g hg => ⟨Nat.le_trans (hold g hg).1 ht, (hold g hg).2⟩⟩

theorem trans (h : l.Trims l' now) {l₂ : Limiter} (h' : l'.Trims l₂ now) : l.Trims l₂ now := by
  obtain ⟨old, hgs, hold⟩ := h.grants
  obtain ⟨older, hgs', hold'⟩ := h'.grants
  refine ⟨h'.quota.trans h.quota, h'.blocked.trans h.blocked, old ++ older, ?_, ?_⟩
  · rw [hgs, hgs', List.append_assoc]
  · intro g hg
    rcases List.mem_append.mp hg with hg | hg
    · exact hold g hg
    · exact h.quota ▸ hold' g hg

theorem evict (h : l.Trims l' now) : Limiter.evict l.quota.period now l'.grants =
    Limiter.evict l.quota.period now l.grants := by
  obtain ⟨old, hgs, hold⟩ := h.grants
  rw [hgs, evict_append hold]

theorem of_evict (ht : l.InTime) {kept : List Instant}
    (hk : Limiter.evict l.quota.period now l.grants = .ok kept) :
    l.Trims { l with grants := kept } now := by
  obtain ⟨old, hgs, hold, -⟩ := evict_ok hk
  exact ⟨rfl, rfl, old, hgs, fun g hg => ⟨hold g hg, ht g (hgs ▸ List.mem_append_left _ hg)⟩⟩

theorem inTime (h : l.Trims l' now) (ht : l.InTime) : l'.InTime := by
  obtain ⟨old, hgs, -⟩ := h.grants
  intro g hg
  rw [h.quota]
  exact ht g (hgs ▸ List.mem_append_right _ hg)

theorem look (ht : l.InTime) (now : Instant) (ha : a.isLook) :
    ∃ r l', l.reply now a = .ok (r, l') ∧ l.Trims l' now := by
  cases a with
  | ask => cases ha
  | penalize d => cases ha
  | available =>
    obtain ⟨n, l', h⟩ := ht.available now
    refine ⟨_, l', except_bind_ok.mpr ⟨_, h, rfl⟩, ?_⟩
    rcases available_cases h with rfl | ⟨kept, hk, rfl⟩
    · exact refl _ now
    · exact of_evict ht hk
  | timeUntilAvailable =>
    obtain ⟨d, l', h⟩ := ht.timeUntilAvailable now
    refine ⟨_, l', except_bind_ok.mpr ⟨_, h, rfl⟩, ?_⟩
    obtain ⟨kept, hk, rfl⟩ := timeUntilAvailable_cases h
    exact of_evict ht hk

theorem block? (h : l.Trims l' now) : l'.block? now = l.block? now := by
  rw [Limiter.block?, Limiter.block?, h.blocked]

theorem tryGrant (h : l.Trims l' now) : l'.tryGrant now = l.tryGrant now ∨
    ∃ a, l'.tryGrant now = .ok (a, l') ∧ l.tryGrant now = .ok (a, l) := by
  -- during a pause nothing is let go of, and after it both let go of the same slots
  cases hb : l.block? now with
  | some b =>
    refine .inr ⟨.refused (b.since now), ?_, ?_⟩
    · simp only [Limiter.tryGrant, h.block?, hb]
    · simp only [Limiter.tryGrant, hb]
  | none =>
    left
    simp only [Limiter.tryGrant, h.block?, hb, h.evict, h.quota]

theorem available (h : l.Trims l' now) : l'.available now = l.available now ∨
    ∃ n, l'.available now = .ok (n, l') ∧ l.available now = .ok (n, l) := by
  cases hb : l.block? now with
  | some b =>
    refine .inr ⟨0, ?_, ?_⟩
    · simp only [Limiter.available, h.block?, hb]
    · simp only [Limiter.available, hb]
  | none =>
    left
    simp only [Limiter.available, h.block?, hb, h.evict, h.quota, h.blocked]

theorem timeUntilAvailable (h : l.Trims l' now) :
    l'.timeUntilAvailable now = l.timeUntilAvailable now := by
  simp only [Limiter.timeUntilAvailable, h.evict, h.quota, h.blocked]

theorem penalize (h : l.Trims l' now) (d : Span) :
    (l.penalize now d).Trims (l'.penalize now d) now := by
  simp only [Limiter.penalize, h.blocked]
  split
  · exact h
  · split
    · exact ⟨h.quota, rfl, h.grants⟩
    · split
      · exact ⟨h.quota, rfl, h.grants⟩
      · exact h

/-- No act tells a limiter from what is left of it: its reply is the same, and the two stay so
related. -/
theorem reply (h : l.Trims l' now) (a : LimiterAct) : l'.reply now a = l.reply now a ∨
    ∃ r l₁ l₁', l'.reply now a = .ok (r, l₁') ∧ l.reply now a = .ok (r, l₁) ∧ l₁.Trims l₁' now := by
  cases a with
  | ask =>
    rcases h.tryGrant with hsame | ⟨a, ha', ha⟩
    · left
      simp only [Limiter.reply, hsame]
    · exact .inr ⟨_, l, l', except_bind_ok.mpr ⟨_, ha', rfl⟩, except_bind_ok.mpr ⟨_, ha, rfl⟩, h⟩
  | penalize d => exact .inr ⟨_, _, _, rfl, rfl, h.penalize d⟩
  | available =>
    rcases h.available with hsame | ⟨n, hn', hn⟩
    · left
      simp only [Limiter.reply, hsame]
    · exact .inr ⟨_, l, l', except_bind_ok.mpr ⟨_, hn', rfl⟩, except_bind_ok.mpr ⟨_, hn, rfl⟩, h⟩
  | timeUntilAvailable =>
    left
    simp only [Limiter.reply, h.timeUntilAvailable]

theorem replies {later : List (Instant × LimiterAct)} (h : l.Trims l' now)
    (hclock : (now :: later.map (·.1)).Pairwise (· ≤ ·)) :
    (l'.replies later).map (·.1) = (l.replies later).map (·.1) := by
  induction later generalizing l l' now with
  | nil => rfl
  | cons x later ih =>
    obtain ⟨hnow, hclock⟩ := List.pairwise_cons.mp hclock
    have h := h.later (hnow x.1 List.mem_cons_self)
    rcases h.reply x.2 with hsame | ⟨r, l₁, l₁', hr', hr, h₁⟩
    · simp only [Limiter.replies, hsame]
    · rw [map_replies_cons hr', map_replies_cons hr, ih h₁ hclock]

theorem looks (ht : l.InTime) {looks later : List (Instant × LimiterAct)}
    (hlooks : ∀ x ∈ looks, x.2.isLook)
    (hclock : (now :: (looks ++ later).map (·.1)).Pairwise (· ≤ ·)) :
    ∃ rs l' t, l.replies looks = .ok (rs, l') ∧ now ≤ t ∧ l.Trims l' t ∧
      (t :: later.map (·.1)).Pairwise (· ≤ ·) := by
  -- `t` is the time of the last look
  induction looks generalizing l now with
  | nil => exact ⟨[], l, now, rfl, Nat.le_refl _, refl l now, hclock⟩
  | cons x looks ih =>
    obtain ⟨hnow, hclock⟩ := List.pairwise_cons.mp hclock
    obtain ⟨r, l₁, hr, h₁⟩ := look ht x.1 (hlooks x List.mem_cons_self)
    obtain ⟨rs, l₂, t, hrs, ht₁, h₂, hlater⟩ :=
      ih (h₁.inTime ht) (fun y hy => hlooks y (List.mem_cons_of_mem _ hy)) hclock
    have hle : now ≤ t := Nat.le_trans (hnow x.1 List.mem_cons_self) ht₁
    exact ⟨r :: rs, l₂, t, replies_cons hr hrs, hle, (h₁.later ht₁).trans h₂, hlater⟩

end Trims

theorem Unmoved.intro (ht : l.InTime) (now : Instant) : l.Unmoved now := by
  intro looks later hlooks hclock
  obtain ⟨rs, l', t, hrs, -, htrims, hlater⟩ := Trims.looks ht hlooks hclock
  exact ⟨rs, l', hrs, htrims.replies hlater⟩

theorem inTime_of_past (hin : now.nanos + l.quota.period.nanos < Instant.horizon)
    (hpast : ∀ g ∈ l.grants, g ≤ now) : l.InTime := by
  intro g hg
  have hle : g.nanos ≤ now.nanos := hpast g hg
  omega

theorem grants_of_act {mark : Option LimiterMark} (h : l.act now a = .ok (mark, l')) :
    ∀ g ∈ l'.grants, g ∈ l.grants ∨ g = now := by
  have kept_sub {kept : List Instant} (hk : evict l.quota.period now l.grants = .ok kept) :
      ∀ g ∈ kept, g ∈ l.grants := by
    obtain ⟨old, hgs, -, -⟩ := evict_ok hk
    intro g hg
    exact hgs ▸ List.mem_append_right _ hg
  intro g hg
  cases a with
  | ask =>
    obtain ⟨admission, h, -⟩ := act_ask h
    rcases tryGrant_cases h with ⟨_, _, _, _, rfl⟩ | ⟨-, kept, hk, ⟨-, -, rfl⟩ | ⟨-, rfl, -⟩⟩
    · exact .inl hg
    · rcases List.mem_append.mp hg with hg | hg
      · exact .inl (kept_sub hk g hg)
      · exact .inr (List.mem_singleton.mp hg)
    · exact .inl (kept_sub hk g hg)
  | penalize d =>
    cases h
    exact .inl ((penalize_cases l now d).2.1 ▸ hg)
  | available =>
    obtain ⟨n, h, -⟩ := act_available h
    rcases available_cases h with rfl | ⟨kept, hk, rfl⟩
    · exact .inl hg
    · exact .inl (kept_sub hk g hg)
  | timeUntilAvailable =>
    obtain ⟨d, h, -⟩ := act_timeUntilAvailable h
    obtain ⟨kept, hk, rfl⟩ := timeUntilAvailable_cases h
    exact .inl (kept_sub hk g hg)

theorem InTime.reply (ht : l.InTime) (t : Instant) (a : LimiterAct) :
    ∃ r l', l.reply t a = .ok (r, l') := by
  cases a with
  | penalize d => exact ⟨_, _, rfl⟩
  | ask =>
    obtain ⟨a, l', h⟩ := ht.tryGrant t
    exact ⟨_, l', except_bind_ok.mpr ⟨_, h, rfl⟩⟩
  | available =>
    obtain ⟨n, l', h⟩ := ht.available t
    exact ⟨_, l', except_bind_ok.mpr ⟨_, h, rfl⟩⟩
  | timeUntilAvailable =>
    obtain ⟨d, l', h⟩ := ht.timeUntilAvailable t
    exact ⟨_, l', except_bind_ok.mpr ⟨_, h, rfl⟩⟩

theorem replies_past (hl : l.Bounded) (hpast : ∀ g ∈ l.grants, g ≤ now)
    (hin : now.nanos + l.quota.period.nanos < Instant.horizon)
    {acts : List (Instant × LimiterAct)} (hacts : ∀ x ∈ acts, x.1 ≤ now) :
    ∃ rs l', l.replies acts = .ok (rs, l') ∧ l'.quota = l.quota ∧ l'.Bounded ∧
      ∀ g ∈ l'.grants, g ≤ now := by
  induction acts generalizing l with
  | nil => exact ⟨[], l, rfl, rfl, hl, hpast⟩
  | cons x acts ih =>
    obtain ⟨r, l₁, hr⟩ := (inTime_of_past hin hpast).reply x.1 x.2
    obtain ⟨mark, hact⟩ := act_of_reply hr
    have hq := act_quota hact
    have hpast₁ : ∀ g ∈ l₁.grants, g ≤ now := by
      intro g hg
      rcases grants_of_act hact g hg with hg | rfl
      · exact hpast g hg
      · exact hacts x List.mem_cons_self
    obtain ⟨rs, l₂, hrs, hq₂, hl₂, hpast₂⟩ :=
      ih (hl.act hact) hpast₁ (hq ▸ hin) (fun y hy => hacts y (List.mem_cons_of_mem _ hy))
    exact ⟨r :: rs, l₂, replies_cons hr hrs, hq₂.trans hq, hl₂, hpast₂⟩

/-- However a limiter has been used, what it reports is what it does, as long as a period that begins
now ends within the clock. -/
theorem reports_agree (q : Quota) {acts : List (Instant × LimiterAct)} {now : Instant}
    (hacts : ∀ x ∈ acts, x.1 ≤ now) (hin : now.nanos + q.period.nanos < Instant.horizon) :
    ∃ rs l, (ofQuota q).replies acts = .ok (rs, l) ∧ (∃ n d, l.Reports now n d) ∧ l.Unmoved now := by
  have hnone : ∀ g ∈ (ofQuota q).grants, g ≤ now := by simp [ofQuota]
  obtain ⟨rs, l, hrs, hq, hl, hpast⟩ := replies_past (Bounded.ofQuota q) hnone hin hacts
  have hin : now.nanos + l.quota.period.nanos < Instant.horizon := by rwa [hq]
  have ht := inTime_of_past hin hpast
  exact ⟨rs, l, hrs, Reports.intro hl ht hin, Unmoved.intro ht now⟩

/-- Two slots every second, one of them granted half a second before a pause of a quarter. -/
theorem reports_agree_paused : ∃ (q : Quota) (acts : List (Instant × LimiterAct)) (l : Limiter),
    (∀ x ∈ acts, x.1 ≤ ⟨500000000⟩) ∧ 500000000 + q.period.nanos < Instant.horizon ∧
    (∃ rs, (ofQuota q).replies acts = .ok (rs, l)) ∧
    l.Reports ⟨500000000⟩ 0 (.ofMillis 250) ∧ l.Unmoved ⟨500000000⟩ := by
  let q : Quota := ⟨2, .ofSeconds 1, by decide, by decide⟩
  let acts : List (Instant × LimiterAct) :=
    [(.start, .ask), (⟨500000000⟩, .available), (⟨500000000⟩, .penalize (.ofMillis 250))]
  let l : Limiter := ⟨q, [.start], some ⟨750000000⟩⟩
  have hacts : ∀ x ∈ acts, x.1 ≤ ⟨500000000⟩ := by decide
  have hin : 500000000 + q.period.nanos < Instant.horizon := by decide
  have hrun : (ofQuota q).replies acts = .ok ([.admission .granted, .slots 1, .paused], l) := by
    decide +kernel
  obtain ⟨rs, l', hrs, ⟨n, d, hreports⟩, hunmoved⟩ := reports_agree q hacts hin
  cases hrun.symm.trans hrs
  obtain ⟨⟨ln, hn⟩, ld, hd⟩ := hreports.announced
  have hslots : l.available ⟨500000000⟩ = .ok (0, l) := by decide +kernel
  have hwait : l.timeUntilAvailable ⟨500000000⟩ = .ok (.ofMillis 250, l) := by decide +kernel
  cases hslots.symm.trans hn
  cases hwait.symm.trans hd
  exact ⟨q, acts, l, hacts, hin, ⟨_, hrun⟩, hreports, hunmoved⟩

/-- Two slots in the longest period: the first is granted, and from then on the limiter has no answer
to anyone, the second slot that it announced included. -/
theorem second_slot_unreachable : ∃ (q : Quota) (l l' : Limiter),
    Quota.make 2 (.ofSeconds (Width.beyond64 - 1)) = .ok q ∧
    (ofQuota q).available .start = .ok (2, l) ∧
    (ofQuota q).tryGrant .start = .ok (.granted, l') ∧
    (ofQuota q).replies (List.replicate 2 (.start, .ask)) = .error .clock ∧
    l'.available .start = .error .clock ∧ l'.timeUntilAvailable .start = .error .clock := by
  let q : Quota := ⟨2, .ofSeconds (Width.beyond64 - 1), by decide, by decide⟩
  refine ⟨q, ofQuota q, ⟨q, [.start], none⟩, ?_, ?_, ?_, ?_, ?_, ?_⟩ <;> decide +kernel

end Limiter

end CatalogClient
