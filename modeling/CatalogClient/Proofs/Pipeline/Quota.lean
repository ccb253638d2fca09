import CatalogClient.Pipeline.Journal
import CatalogClient.Proofs.Limiter.History
import CatalogClient.Proofs.Pipeline.Runs
import Mathlib.Data.List.Perm.Subperm
/-!
The quota as the service sees it. Each attempt takes a slot of its own, and slots are spaced; between its
slot and the attempt a call may have to wait for a credential, and by so much attempts may move together.
-/

namespace CatalogClient

/-- An attempt, by the instant of its slot and the instant at which it was sent. -/
structure Departure where
  slot : Instant
  sent : Instant
  deriving DecidableEq, Repr

def Departure.wait (d : Departure) : Nat := d.sent.nanos - d.slot.nanos

namespace Journal

/-- The slots that tasks hold and have sent nothing with, the latest first. -/
def held : List Entry → List (Nat × Instant)
  | [] => []
  | ⟨time, .granted i⟩ :: journal => (i, time) :: held journal
  | ⟨_, .sent i _⟩ :: journal => (held journal).eraseP (·.1 = i)
  | _ :: journal => held journal

/-- The attempts that had a slot, the latest first. -/
def departures : List Entry → List Departure
  | [] => []
  | ⟨time, .sent i _⟩ :: journal =>
    (((held journal).find? (·.1 = i)).map fun x => ⟨x.2, time⟩).toList ++ departures journal
  | _ :: journal => departures journal

def sendings (journal : List Entry) : List Instant :=
  journal.filterMap fun e => match e.event with
    | .sent _ _ => some e.time
    | _ => none

theorem perm_eraseP_of_find? {α : Type} {f : α → Bool} {xs : List α} {x : α}
    (h : xs.find? f = some x) : (x :: xs.eraseP f).Perm xs := by
  induction xs with
  | nil => cases h
  | cons y ys ih =>
    by_cases hy : f y
    · rw [List.find?_cons_of_pos hy] at h
      cases h
      rw [List.eraseP_cons_of_pos hy]
    · rw [List.find?_cons_of_neg hy] at h
      rw [List.eraseP_cons_of_neg hy]
      exact (List.Perm.swap y x _).trans ((ih h).cons y)

theorem grants_cons (e : Entry) (journal : List Entry) : grants (e :: journal) =
    grants journal ++ match e.event with
      | .granted _ => [e.time]
      | _ => [] := by
  obtain ⟨time, event⟩ := e
  cases event <;> simp [grants]

theorem slots_perm (journal : List Entry) :
    ((departures journal).map (·.slot) ++ (held journal).map (·.2)).Perm (grants journal) := by
  induction journal with
  | nil => exact .refl _
  | cons e journal ih =>
    obtain ⟨time, event⟩ := e
    rw [grants_cons]
    cases event with
    | granted i =>
      exact List.perm_middle.trans ((ih.cons time).trans (List.perm_append_singleton _ _).symm)
    | sent i a =>
      simp only [departures, held, List.append_nil]
      cases hf : (held journal).find? (·.1 = i) with
      | none =>
        rw [List.eraseP_of_forall_not (List.find?_eq_none.mp hf)]
        exact ih
      | some x =>
        refine List.Perm.trans ?_ ih
        have hheld := (perm_eraseP_of_find? hf).map (·.2)
        exact List.perm_middle.symm.trans (hheld.append_left _)
    | _ => simpa [departures, held] using ih

def silent : Event → Bool
  | .granted _ | .sent .. => false
  | _ => true

theorem slots_of_silent {events : List Event} (h : events.all silent) (now : Instant)
    (journal : List Entry) :
    held (events.map (⟨now, ·⟩) ++ journal) = held journal ∧
      departures (events.map (⟨now, ·⟩) ++ journal) = departures journal ∧
      sendings (events.map (⟨now, ·⟩) ++ journal) = sendings journal ∧
      grants (events.map (⟨now, ·⟩) ++ journal) = grants journal := by
  induction events with
  | nil => exact ⟨rfl, rfl, rfl, rfl⟩
  | cons event events ih =>
    obtain ⟨hquiet, hrest⟩ := (Bool.and_eq_true _ _).mp h
    obtain ⟨hheld, hdep, hsend, hgrant⟩ := ih hrest
    rw [List.map_cons, List.cons_append, grants_cons, hgrant]
    cases event with
    | granted i => cases hquiet
    | sent i a => cases hquiet
    | _ => exact ⟨hheld, hdep, hsend, List.append_nil _⟩

end Journal

namespace Task

variable {σ : Type} {p : Peer σ} {c : Setup} {w w' : World σ} {t t' : Task}

def slotted (t : Task) : Bool :=
  match t.stage with
  | .seeking | .queued _ | .exchanging _ | .awaitingToken .. | .resting .. | .sending _ => true
  | _ => false

/-- What a step has to do with slots. -/
inductive Move.Slots (w w' : World σ) (t t' : Task) : Prop
  | silent (events : List Event) (he : events.all Journal.silent)
    (hj : w'.journal = events.map (⟨w.now, ·⟩) ++ w.journal)
    (hl : w'.limiter = w.limiter ∨ (∃ d, w.limiter.tryGrant w.now = .ok (.refused d, w'.limiter)) ∨
      ∃ d, w'.limiter = w.limiter.penalize w.now d)
    (hs : t'.slotted → t.slotted)
  | grants (hl : w.limiter.tryGrant w.now = .ok (.granted, w'.limiter))
    (hj : w'.journal = ⟨w.now, .granted t.id⟩ :: w.journal)
  | sends {a : Attempt} (hl : w'.limiter = w.limiter)
    (hj : w'.journal = ⟨w.now, .sent t.id a⟩ :: w.journal) (hs : t.slotted)
    (hg : ∃ r url, t.goal = .call r url) (hs' : t'.slotted = false)

theorem pause_not_slotted (t : Task) (wake : Instant) (delay : Span) (s : RetryState) :
    slotted { t with stage := if delay.isZero then .asking else .pausing wake, retry := s } =
      false := by
  cases h : delay.isZero <;> simp [slotted]

theorem Move.Slots.writes (events : List Event) (he : events.all Journal.silent)
    (hj : w'.journal = events.map (⟨w.now, ·⟩) ++ w.journal) (hl : w'.limiter = w.limiter)
    (hs : t'.slotted → t.slotted) : Move.Slots w w' t t' :=
  .silent events he hj (.inl hl) hs

theorem Move.slots (h : t.Move p c w w' t') : Move.Slots w w' t t' := by
  cases h with
  | stray hs hg => exact .writes [] rfl rfl rfl (fun h => by cases h)
  | refused ha hl =>
    exact .silent [] rfl rfl (.inr (.inl ⟨_, hl⟩)) (fun h => by cases h)
  | granted ha hl => exact .grants hl rfl
  | found hs hu => exact .writes [_] rfl rfl rfl (fun _ => by simp [slotted, hs])
  | lined hs hu => exact .writes [] rfl rfl rfl (fun _ => by simp [slotted, hs])
  | shared hs hh hu => exact .writes [_] rfl rfl rfl (fun _ => by simp [slotted, hs])
  | sharedFailure hs hh hu hg hf => exact .writes [_] rfl rfl rfl (fun _ => by simp [slotted, hs])
  | refresh hs hh hu hg => exact .writes [] rfl rfl rfl (fun _ => by simp [slotted, hs])
  | exchange he =>
    refine .writes [_] rfl rfl rfl (fun _ => ?_)
    rcases he with hs | ⟨wake, -, hs⟩ <;> simp [slotted, hs]
  | issued hs hw hi => exact .writes [_, _, _] rfl rfl rfl (fun _ => by simp [slotted, hs])
  | rest hs hw hf hr => exact .writes [_] rfl rfl rfl (fun _ => by simp [slotted, hs])
  | fallBack hs hw hf hr => exact .writes [_] rfl rfl rfl (fun _ => by simp [slotted, hs])
  | refreshFailed hs hw hr hf => exact .writes [_, _, _] rfl rfl rfl (fun _ => by simp [slotted, hs])
  | send hs hg ha => exact .sends rfl rfl (by simp [slotted, hs]) ⟨_, _, hg⟩ rfl
  | succeed hs hw hg ha hok => exact .writes [_] rfl rfl rfl (fun h => by cases h)
  | fail hs hw hg hf hd => exact .writes [_] rfl rfl rfl (fun h => by cases h)
  | reject hs hw hg hf ha hr => exact .writes [_, _] rfl rfl rfl (fun h => by cases h)
  | @slow _ _ _ _ _ _ _ f delay hs hw hg hf hc hr hd =>
    refine .silent [_, _] rfl rfl (.inr (.inr ⟨delay, rfl⟩)) ?_
    rw [pause_not_slotted]
    exact fun h => by cases h
  | retry hs hw hg hf hc hr hd =>
    refine .writes [_] rfl rfl rfl ?_
    rw [pause_not_slotted]
    exact fun h => by cases h
  | idle hs hg => exact .writes [] rfl rfl rfl (fun h => by cases h)

end Task

namespace Traffic

variable {σ : Type} {p : Peer σ} {c : Setup} {q : Quota}

/-- The limiter keeps the quota, knows all slots in the journal, and each attempt had one of them. -/
structure Paced (q : Quota) (w : World σ) : Prop where
  quota : w.limiter.quota = q
  known : ∃ h, w.limiter.Knows h w.now ∧
    (Journal.grants w.journal).Sublist (LimiterHistory.grants h)
  slots : (Journal.departures w.journal).map (·.sent) = Journal.sendings w.journal
  later : ∀ d ∈ Journal.departures w.journal, d.slot ≤ d.sent
  past : ∀ x ∈ Journal.held w.journal, x.2 ≤ w.now

theorem Paced.start (date : UtcTime) (credential : Option Credential) (peer : σ) :
    Paced q (World.start date (.ofQuota q) credential peer) :=
  ⟨rfl, ⟨[], .nothing q _, .refl _⟩, rfl, fun d hd => (by cases hd), fun x hx => (by cases hx)⟩

theorem Paced.limit {w : World σ} (h : Paced q w) {a : LimiterAct} {mark : Option LimiterMark}
    {l : Limiter} (ha : w.limiter.act w.now a = .ok (mark, l)) :
    Paced q { w with limiter := l } := by
  obtain ⟨hist, hk, hsub⟩ := h.known
  refine ⟨(Limiter.act_quota ha).trans h.quota, ⟨_, hk.act ha, ?_⟩, h.slots, h.later, h.past⟩
  rw [LimiterHistory.grants_append]
  exact hsub.trans (List.sublist_append_left _ _)

theorem Paced.silent {w w' : World σ} (h : Paced q w) {events : List Event}
    (he : events.all Journal.silent)
    (hj : w'.journal = events.map (⟨w.now, ·⟩) ++ w.journal) (hnow : w'.now = w.now)
    (hl : w'.limiter = w.limiter) : Paced q w' := by
  obtain ⟨hheld, hdep, hsend, hgrant⟩ := Journal.slots_of_silent he w.now w.journal
  refine ⟨hl ▸ h.quota, ?_, ?_, ?_, ?_⟩
  · rw [hj, hgrant, hl, hnow]
    exact h.known
  · rw [hj, hdep, hsend]
    exact h.slots
  · rw [hj, hdep]
    exact h.later
  · rw [hj, hheld, hnow]
    exact h.past

theorem Paced.grants {w w' : World σ} (h : Paced q w) {i : Nat}
    (hl : w.limiter.tryGrant w.now = .ok (.granted, w'.limiter))
    (hj : w'.journal = ⟨w.now, .granted i⟩ :: w.journal) (hnow : w'.now = w.now) : Paced q w' := by
  obtain ⟨hist, hk, hsub⟩ := h.known
  have hk' : w'.limiter.Knows (hist ++ [(w.now, .granted)]) w'.now := by
    rw [hnow]
    exact hk.tryGrant hl
  have ha : w.limiter.act w.now .ask = .ok (some .granted, w'.limiter) := by
    simp [Limiter.act, hl]
  refine ⟨(Limiter.act_quota ha).trans h.quota, ⟨_, hk', ?_⟩, ?_, ?_, ?_⟩
  · rw [hj, Journal.grants_cons, LimiterHistory.grants_append, LimiterHistory.grants_granted]
    exact hsub.append (.refl [w.now])
  · rw [hj]
    exact h.slots
  · rw [hj]
    exact h.later
  · rw [hj, hnow]
    intro x hx
    rcases List.mem_cons.mp hx with rfl | hx
    · exact Nat.le_refl _
    · exact h.past x hx

theorem Paced.sends {w w' : World σ} (h : Paced q w) {i : Nat} {a : Attempt}
    (hheld : ∃ x ∈ Journal.held w.journal, x.1 = i) (hl : w'.limiter = w.limiter)
    (hj : w'.journal = ⟨w.now, .sent i a⟩ :: w.journal) (hnow : w'.now = w.now) : Paced q w' := by
  obtain ⟨x, hf⟩ : ∃ x, (Journal.held w.journal).find? (·.1 = i) = some x := by
    obtain ⟨x, hx, hi⟩ := hheld
    refine Option.isSome_iff_exists.mp (List.find?_isSome.mpr ⟨x, hx, ?_⟩)
    simpa using hi
  have hmem := List.mem_of_find?_eq_some hf
  refine ⟨hl ▸ h.quota, ?_, ?_, ?_, ?_⟩
  · rw [hj, Journal.grants_cons, List.append_nil, hl, hnow]
    exact h.known
  · rw [hj]
    simp only [Journal.departures, hf]
    exact congrArg (w.now :: ·) h.slots
  · rw [hj]
    simp only [Journal.departures, hf]
    intro d hd
    rcases List.mem_cons.mp hd with rfl | hd
    · exact h.past x hmem
    · exact h.later d hd
  · rw [hj, hnow]
    exact fun y hy => h.past y (List.mem_of_mem_eraseP hy)

def HasSlot (w : World σ) (t : Task) : Prop :=
  (∃ r url, t.goal = .call r url) → t.slotted → ∃ x ∈ Journal.held w.journal, x.1 = t.id

theorem Paced.move {w w' : World σ} {t t' : Task} (h : Paced q w) (ht : HasSlot w t)
    (hm : t.Move p c w w' t') :
    Paced q w' ∧ HasSlot w' t' ∧ ∀ u, u.id ≠ t.id → HasSlot w u → HasSlot w' u := by
  cases hm.slots with
  | silent events he hj hl hs =>
    have hheld := (Journal.slots_of_silent he w.now w.journal).1
    rw [← hj] at hheld
    refine ⟨?_, ?_, fun u _ hu => by rw [HasSlot, hheld]; exact hu⟩
    · rcases hl with hl | ⟨d, hl⟩ | ⟨d, hl⟩
      · exact h.silent he hj hm.now_eq hl
      · have ha : w.limiter.act w.now .ask = .ok (none, w'.limiter) := by
          simp [Limiter.act, hl]
        exact (h.limit ha).silent he hj hm.now_eq rfl
      · have ha : w.limiter.act w.now (.penalize d) = .ok (some (.paused d), w'.limiter) := by
          rw [hl]
          rfl
        exact (h.limit ha).silent he hj hm.now_eq rfl
    · intro hg hslot
      rw [hheld, hm.id_eq]
      exact ht (hm.goal_eq ▸ hg) (hs hslot)
  | grants hl hj =>
    refine ⟨h.grants hl hj hm.now_eq, ?_, ?_⟩
    · intro _ _
      rw [hj, hm.id_eq]
      exact ⟨_, List.mem_cons_self, rfl⟩
    · intro u _ hu hg hslot
      obtain ⟨x, hx, hi⟩ := hu hg hslot
      rw [hj]
      exact ⟨x, List.mem_cons_of_mem _ hx, hi⟩
  | sends hl hj hs hg hs' =>
    refine ⟨h.sends (ht hg hs) hl hj hm.now_eq, ?_, ?_⟩
    · intro _ hslot
      rw [hs'] at hslot
      cases hslot
    · intro u hne hu hg hslot
      obtain ⟨x, hx, hi⟩ := hu hg hslot
      rw [hj]
      refine ⟨x, (List.mem_eraseP_of_neg ?_).mpr hx, hi⟩
      simpa [hi] using hne

theorem paced_kept : Kept p c (Paced q) HasSlot where
  begin w goal deadline h := by
    refine ⟨⟨h.quota, h.known, h.slots, h.later, h.past⟩, ?_, fun u hu => hu⟩
    rintro ⟨r, url, hg⟩ hslot
    cases hg
    cases hslot
  move w t w' t' h ht hm := h.move ht hm
  expire w t h _ _ _ := by
    have hj : (t.expire w).1.journal = [Event.expired t.id].map (⟨w.now, ·⟩) ++ w.journal := rfl
    exact ⟨h.silent rfl hj rfl rfl, fun _ hslot => (by cases hslot), fun u _ hu => hu⟩
  drop w t h _ := ⟨⟨h.quota, h.known, h.slots, h.later, h.past⟩, fun u _ hu => hu⟩
  elapse w time h hle := by
    obtain ⟨hist, hk, hsub⟩ := h.known
    refine ⟨⟨h.quota, ⟨hist, hk.later hle, hsub⟩, h.slots, h.later, ?_⟩, fun u hu => hu⟩
    exact fun x hx => Nat.le_trans (h.past x hx) hle
  date w date h := ⟨⟨h.quota, h.known, h.slots, h.later, h.past⟩, fun u hu => hu⟩
  limit w a mark l h ha := ⟨h.limit ha, fun u hu => hu⟩
  invalidate w token h := by
    have hj : (w.invalidate token).journal =
      [Event.invalidated token].map (⟨w.now, ·⟩) ++ w.journal := rfl
    exact ⟨h.silent rfl hj rfl rfl, fun u hu => hu⟩

theorem Paced.span {w : World σ} (h : Paced q w) {us : List Departure}
    (hu : us.Sublist (Journal.departures w.journal)) (hl : us.length = q.limit + 1) :
    ∃ a ∈ us, ∃ b ∈ us, a.slot.nanos + q.period.nanos ≤ b.slot.nanos := by
  obtain ⟨hist, hk, hsub⟩ := h.known
  -- Attempts need not leave in the order of their slots.
  have hslots : (us.map (·.slot)).Subperm (LimiterHistory.grants hist) := by
    have hmem : (us.map (·.slot)).Subperm (Journal.grants w.journal) :=
      ((hu.map _).trans (List.sublist_append_left _ _)).subperm.trans
        (Journal.slots_perm w.journal).subperm
    exact hmem.trans hsub.subperm
  obtain ⟨vs, hperm, hvs⟩ := hslots
  have hlen : vs.length = w.limiter.quota.limit + 1 := by
    rw [hperm.length_eq, List.length_map, hl, h.quota]
  obtain ⟨a, ha, b, hb, hspan⟩ := LimiterHistory.spaced_span hk.spaced
    (LimiterHistory.grants_ordered hk.ordered) hvs hlen
  obtain ⟨x, hx, rfl⟩ := List.mem_map.mp (hperm.mem_iff.mp ha)
  obtain ⟨y, hy, rfl⟩ := List.mem_map.mp (hperm.mem_iff.mp hb)
  rw [h.quota] at hspan
  exact ⟨x, hx, y, hy, hspan⟩

/-- Each attempt has a slot of its own. Of more attempts than the quota allows, two are a period apart but
for the time that the earlier one was kept back after its slot, and a full period where no attempt was
kept back. -/
theorem departures_span {date : UtcTime} {credential : Option Credential} {peer : σ}
    {s : Traffic σ} (hr : Reaches p c ⟨.start date (.ofQuota q) credential peer, []⟩ s) :
    (Journal.departures s.world.journal).map (·.sent) = Journal.sendings s.world.journal ∧
    (∀ d ∈ Journal.departures s.world.journal, d.slot ≤ d.sent) ∧
    ∀ us : List Departure, us.Sublist (Journal.departures s.world.journal) → us.length = q.limit + 1 →
      (∃ a ∈ us, ∃ b ∈ us, a.sent.nanos + q.period.nanos ≤ b.sent.nanos + a.wait) ∧
      ((∀ d ∈ us, d.wait = 0) →
        ∃ a ∈ us, ∃ b ∈ us, a.sent.nanos + q.period.nanos ≤ b.sent.nanos) := by
  obtain ⟨h, -⟩ := paced_kept.reaches hr (.start date credential peer) (by simp)
  refine ⟨h.slots, h.later, ?_⟩
  intro us hu hl
  obtain ⟨a, ha, b, hb, hspan⟩ := h.span hu hl
  have hslot : a.slot.nanos ≤ a.sent.nanos := h.later a (hu.subset ha)
  have hsent : b.slot.nanos ≤ b.sent.nanos := h.later b (hu.subset hb)
  have hgap : a.sent.nanos + q.period.nanos ≤ b.sent.nanos + a.wait := by
    simp only [Departure.wait]
    omega
  refine ⟨⟨a, ha, b, hb, hgap⟩, ?_⟩
  intro hnone
  rw [hnone a ha] at hgap
  exact ⟨a, ha, b, hb, hgap⟩

/-- A service that answers at once, and whose tokens last an hour and take some time to come. -/
def issuing (latency : Span) : Peer Unit where
  send _ _ := (⟨.zero, .ok ⟨200, [], [], .zero, 1⟩⟩, ())
  exchange _ _ := (⟨latency, .ok ⟨"token", 3600, none, none, none⟩⟩, ())
  draw _ := (0, ())

def everySecond : Quota := ⟨1, .ofSeconds 1, by decide, by decide⟩

def pair : Schedule Unit :=
  .ofOrders (.start (.ofNanos 0) (.ofQuota everySecond) none ()) 2
    [⟨.call (.get "families/a") (Setup.plain 0).base, none⟩,
      ⟨.call (.get "families/b") (Setup.plain 0).base, none⟩]

theorem departures_span_prompt :
    ∃ s, pair.run (issuing .zero) (Setup.plain 0) 60 = .ok s ∧
      Journal.sendings s.world.journal = [⟨1000000000⟩, ⟨0⟩] ∧
      ∃ a ∈ Journal.departures s.world.journal, ∃ b ∈ Journal.departures s.world.journal,
        a.sent.nanos + everySecond.period.nanos ≤ b.sent.nanos := by
  have hrun : ∃ s, pair.run (issuing .zero) (Setup.plain 0) 60 = .ok s ∧
      Journal.sendings s.world.journal = [⟨1000000000⟩, ⟨0⟩] ∧
      Journal.departures s.world.journal =
        [⟨⟨1000000000⟩, ⟨1000000000⟩⟩, ⟨⟨0⟩, ⟨0⟩⟩] := ⟨_, rfl, rfl, rfl⟩
  obtain ⟨s, hs, hsend, hdep⟩ := hrun
  obtain ⟨-, -, hspan⟩ := departures_span (ofOrders_reaches hs)
  obtain ⟨-, hfull⟩ := hspan _ (.refl _) (by rw [hdep]; rfl)
  exact ⟨s, hs, hsend, hfull (by rw [hdep]; decide)⟩

/-- Two calls whose slots are a second apart wait for one token, and are sent at the same instant. -/
theorem sendings_bunched :
    ∃ s, Reaches (issuing (.ofSeconds 5)) (Setup.plain 0)
        ⟨.start (.ofNanos 0) (.ofQuota everySecond) none (), []⟩ s ∧
      ∃ us, List.Sublist us (Journal.sendings s.world.journal) ∧
        us.length = everySecond.limit + 1 ∧
        ¬ ∃ a ∈ us, ∃ b ∈ us, a.nanos + everySecond.period.nanos ≤ b.nanos := by
  have hrun : ∃ s, pair.run (issuing (.ofSeconds 5)) (Setup.plain 0) 60 = .ok s ∧
      Journal.sendings s.world.journal = [⟨5000000000⟩, ⟨5000000000⟩] := ⟨_, rfl, rfl⟩
  obtain ⟨s, hs, hsend⟩ := hrun
  refine ⟨⟨s.world, s.tasks⟩, ofOrders_reaches hs, [⟨5000000000⟩, ⟨5000000000⟩], ?_, rfl, ?_⟩
  · rw [← hsend]
  · simp [everySecond, Span.ofSeconds, Span.ofNanos, nanosPerSecond, Width.beyond64]

end Traffic

end CatalogClient
