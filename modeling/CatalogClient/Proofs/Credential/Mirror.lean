import CatalogClient.Proofs.Credential.Lobby
import CatalogClient.Proofs.Pipeline.Guard
import Mathlib.Data.Nat.Pairing
/-!
Tasks among their callers: every look-up of a task is a visit that goes through several accesses without
another between them. Whatever the tasks of a client do, their visits could have done.
-/

namespace CatalogClient

def Event.ofCredential : Event → Bool
  | .issued .. | .refreshed .. | .obtained .. | .invalidated _ => true
  | _ => false

/-- What a journal tells about the credential. -/
def Journal.custody (journal : List Entry) : List Event :=
  (journal.map (·.event)).filter (·.ofCredential)

/-- The number of a visit names the task and the number of its look-up. -/
def VisitMark.event? : VisitMark → Option Event
  | .exchanged v answer => some (.issued (Nat.unpair v).1 answer)
  | .refreshed v _ result => some (.refreshed (Nat.unpair v).1 result)
  | .served v result => some (.obtained (Nat.unpair v).1 result)
  | .invalidated token => some (.invalidated token)
  | _ => none

namespace Lobby

variable {buffer : Span} {date : UtcTime} {vault vault' : Vault} {v : Nat} {a b : Visit}
  {marks marks' : List VisitMark} {d d' : Lobby}

theorem after_after (ha : a.holds → (d.visit v).holds ∨ d.holder = none) :
    (d.after v a marks vault).after v b marks' vault' = d.after v b (marks' ++ marks) vault' := by
  simp only [after, Function.update_idem, List.append_assoc, Lobby.mk.injEq, true_and, and_true,
    Function.update_self]
  by_cases hb : b.holds
  · simp only [if_pos hb]
  · simp only [if_neg hb]
    by_cases hh : a.holds
    · rcases ha hh with hv | hfree
      · simp [hh, hv]
      · simp [hh, hfree]
    · simp only [if_neg hh]

/-- Accesses of one visit, none of another between them. -/
inductive Spree (buffer : Span) (date : UtcTime) (v : Nat) (a : Visit) (vault : Vault) :
    Visit → List VisitMark → Vault → Prop
  | single {b : Visit} {marks : List VisitMark} {vault' : Vault}
    (h : Act buffer date vault v a b marks vault') : Spree buffer date v a vault b marks vault'
  | tail {b b' : Visit} {marks marks' : List VisitMark} {vault' vault'' : Vault}
    (h : Spree buffer date v a vault b marks vault')
    (ha : Act buffer date vault' v b b' marks' vault'') :
    Spree buffer date v a vault b' (marks' ++ marks) vault''

theorem Spree.reaches (h : Spree buffer d.date v (d.visit v) d.vault b marks vault)
    (hl : (d.visit v).holds ∨ d.holder = none) : Reaches buffer d (d.after v b marks vault) := by
  induction h with
  | single hact => exact .single (.act hact fun _ => hl)
  | @tail b₁ b₂ marks₁ marks₂ vault₁ vault₂ _ hact ih =>
    refine ih.tail ?_
    rw [← after_after fun _ => hl]
    have hvisit : (d.after v b₁ marks₁ vault₁).visit v = b₁ := by simp [visit_after]
    refine .act (hvisit.symm ▸ hact) fun _ => ?_
    rw [hvisit]
    cases hb : b₁.holds with
    | true => exact .inl rfl
    | false =>
      refine .inr ?_
      rcases hl with hv | hfree
      · simp [after, hb, hv]
      · simp [after, hb, hfree]

theorem Spree.share {o : Nat} {c : Credential} (hu : vault.usable? date buffer = some c) :
    Spree buffer date v (.waiting o) vault (.served (.ok c))
      [.served v (.ok c), .woke v date vault, .entered v vault] vault := by
  by_cases hg : vault.generation = o
  · exact ((Spree.single .take).tail (.lead hg)).tail (.share (.inr rfl) hu)
  · exact ((Spree.single .take).tail (.lag hg)).tail (.share (.inl rfl) hu)

theorem Spree.shareFailure {o : Nat} {f : Failure} (hu : vault.usable? date buffer = none)
    (hg : vault.generation ≠ o) (hf : vault.lastFailure = some f) :
    Spree buffer date v (.waiting o) vault (.served (.error f))
      [.served v (.error f), .woke v date vault, .entered v vault] vault :=
  (((Spree.single .take).tail (.lag hg)).tail (.lack hu)).tail (.shareFailure hf)

theorem Spree.refresh {o : Nat} (hu : vault.usable? date buffer = none)
    (hg : vault.generation = o ∨ vault.lastFailure = none) :
    ∃ marks, Spree buffer date v (.waiting o) vault (.refreshing none) marks vault ∧
      marks.filterMap VisitMark.event? = [] := by
  by_cases ho : vault.generation = o
  · exact ⟨_, ((Spree.single .take).tail (.lead ho)).tail (.refresh hu), rfl⟩
  · have hf : vault.lastFailure = none := hg.resolve_left ho
    exact ⟨_, ((((Spree.single .take).tail (.lag ho)).tail (.lack hu)).tail (.follow hf)).tail
      (.refresh hu), rfl⟩

theorem Spree.conclude {last : Option (Except Failure TokenGrant)}
    {answer : Except Failure TokenGrant} {result : Except Failure Credential}
    (h : Act buffer date vault v (.refreshing (some answer)) (.keeping result) [] vault) :
    Spree buffer date v (.refreshing last) vault (.served result)
      [.served v result, .refreshed v (vault.generation + 1) result, .kept v result,
        .exchanged v answer] (vault.refreshed result) := by
  have hexchange : Spree buffer date v (.refreshing last) vault (.refreshing (some answer))
      [.exchanged v answer] vault := .single (.exchange answer)
  have hclose := ((hexchange.tail h).tail .keep).tail .close
  rw [← Vault.refreshed_eq, Vault.generation_keep] at hclose
  exact hclose

end Lobby

variable {σ : Type} {p : Peer σ} {c : Setup} {w w' : World σ} {ts : List Task} {t t' : Task}
  {d d' : Lobby}

/-- The visits stand where the tasks stand. A task with the lock refreshes the credential. -/
structure Lobby.Mirrors (d : Lobby) (s : Traffic σ) : Prop where
  date : d.date = s.world.date
  vault : d.vault = s.world.vault
  told : d.record.filterMap VisitMark.event? = Journal.custody s.world.journal
  fresh : ∃ k, ∀ i j, k ≤ j → d.visit (Nat.pair i j) = .arriving
  waiting : ∀ t ∈ s.tasks, ∀ o, t.stage = .queued o → ∃ j, d.visit (Nat.pair t.id j) = .waiting o
  refreshing : ∀ t ∈ s.tasks, t.stage.holds → ∃ j last, d.visit (Nat.pair t.id j) = .refreshing last
  holder : ∀ v, d.holder = some v → ∃ t ∈ s.tasks, t.id = (Nat.unpair v).1 ∧ t.stage.holds

namespace Lobby

theorem Mirrors.start (h : w.journal = []) : (Lobby.start w.date w.vault).Mirrors ⟨w, []⟩ := by
  refine ⟨rfl, rfl, ?_, ⟨0, fun _ _ _ => rfl⟩, by simp, by simp, by simp [Lobby.start]⟩
  change [] = Journal.custody w.journal
  rw [h]
  rfl

/-- A step that does not concern the credential. -/
theorem Mirrors.apart {s s' : Traffic σ} (m : d.Mirrors s) (hdate : s'.world.date = s.world.date)
    (hvault : s'.world.vault = s.world.vault)
    (hj : Journal.custody s'.world.journal = Journal.custody s.world.journal)
    (hnew : ∀ t' ∈ s'.tasks, t'.stage.isInside → ∃ t ∈ s.tasks, t.id = t'.id ∧
      (∀ o, t'.stage = .queued o → t.stage = .queued o) ∧ (t'.stage.holds → t.stage.holds))
    (hold : ∀ t ∈ s.tasks, t.stage.holds → ∃ t' ∈ s'.tasks, t'.id = t.id ∧ t'.stage.holds) :
    d.Mirrors s' := by
  refine ⟨hdate ▸ m.date, hvault ▸ m.vault, hj ▸ m.told, m.fresh, ?_, ?_, ?_⟩
  · intro t' ht' o ho
    obtain ⟨t, ht, hid, hq, -⟩ := hnew t' ht' (by rw [ho]; rfl)
    exact hid ▸ m.waiting t ht o (hq o ho)
  · intro t' ht' hh
    obtain ⟨t, ht, hid, -, hheld⟩ := hnew t' ht' (Stage.isInside_of_holds hh)
    exact hid ▸ m.refreshing t ht (hheld hh)
  · intro v hv
    obtain ⟨t, ht, hid, hh⟩ := m.holder v hv
    obtain ⟨t', ht', hid', hh'⟩ := hold t ht hh
    exact ⟨t', ht', hid'.trans hid, hh'⟩

/-- A step of a task that its visit makes as well. -/
theorem Mirrors.go (m : d.Mirrors ⟨w, ts⟩) (hn : (ts.map (·.id)).Nodup) (ht : t ∈ ts)
    (hid : t'.id = t.id) {j : Nat} {stage : Visit} {marks : List VisitMark} {vault : Vault}
    (hfrom : t.stage.holds → (d.visit (Nat.pair t.id j)).holds) (hdate : w'.date = w.date)
    (hvault : w'.vault = vault)
    (hj : Journal.custody w'.journal =
      marks.filterMap VisitMark.event? ++ Journal.custody w.journal)
    (hq : ∀ o, t'.stage = .queued o → stage = .waiting o)
    (hh : t'.stage.holds → ∃ last, stage = .refreshing last)
    (hh' : stage.holds → t'.stage.holds) :
    (d.after (Nat.pair t.id j) stage marks vault).Mirrors ⟨w', Traffic.put ts t'⟩ := by
  have hother {u : Task} (hu : u.id ≠ t.id) (i : Nat) :
      (d.after (Nat.pair t.id j) stage marks vault).visit (Nat.pair u.id i) =
        d.visit (Nat.pair u.id i) := by
    rw [visit_after, if_neg]
    exact fun he => hu (Nat.pair_eq_pair.mp he).1
  refine ⟨hdate ▸ m.date, hvault.symm, ?_, ?_, ?_, ?_, ?_⟩
  · rw [hj, ← m.told]
    exact List.filterMap_append
  · obtain ⟨k, hk⟩ := m.fresh
    refine ⟨max k (j + 1), fun i i' hi => ?_⟩
    rw [visit_after, if_neg]
    · exact hk i i' (Nat.le_trans (Nat.le_max_left ..) hi)
    · intro he
      have := (Nat.pair_eq_pair.mp he).2
      omega
  · intro u hu o ho
    rcases Traffic.mem_put hu with rfl | ⟨hu, hne⟩
    · refine ⟨j, ?_⟩
      rw [hid, visit_after, if_pos rfl]
      exact hq o ho
    · obtain ⟨i, hi⟩ := m.waiting u hu o ho
      exact ⟨i, (hother (hid ▸ hne) i).trans hi⟩
  · intro u hu hheld
    rcases Traffic.mem_put hu with rfl | ⟨hu, hne⟩
    · obtain ⟨last, hl⟩ := hh hheld
      refine ⟨j, last, ?_⟩
      rw [hid, visit_after, if_pos rfl]
      exact hl
    · obtain ⟨i, last, hi⟩ := m.refreshing u hu hheld
      exact ⟨i, last, (hother (hid ▸ hne) i).trans hi⟩
  · intro v hv
    simp only [after] at hv
    split at hv
    · rename_i hs
      cases hv
      exact ⟨t', Traffic.mem_put_self ht hid, by rw [hid, Nat.unpair_pair], hh' hs⟩
    · split at hv
      · cases hv
      · rename_i hs
        obtain ⟨u, hu, huv, hheld⟩ := m.holder v hv
        have hne : u.id ≠ t.id := by
          intro he
          cases List.inj_on_of_nodup_map hn hu ht he
          exact hs (hfrom hheld)
        exact ⟨u, Traffic.mem_put_other hu (hid ▸ hne), huv, hheld⟩

/-- The end of a look-up. -/
theorem Mirrors.ends (m : d.Mirrors ⟨w, ts⟩) (hn : (ts.map (·.id)).Nodup) (ht : t ∈ ts)
    (hid : t'.id = t.id) {j : Nat} {stage : Visit} {marks : List VisitMark} {vault : Vault}
    (hfrom : t.stage.holds → (d.visit (Nat.pair t.id j)).holds) (hdate : w'.date = w.date)
    (hvault : w'.vault = vault)
    (hj : Journal.custody w'.journal =
      marks.filterMap VisitMark.event? ++ Journal.custody w.journal)
    (hout : t'.stage.isInside = false) (hs : stage.holds = false) :
    (d.after (Nat.pair t.id j) stage marks vault).Mirrors ⟨w', Traffic.put ts t'⟩ := by
  refine m.go hn ht hid hfrom hdate hvault hj ?_ ?_ ?_
  · intro o ho
    rw [ho] at hout
    cases hout
  · intro hheld
    rw [Stage.isInside_of_holds hheld] at hout
    cases hout
  · intro hheld
    rw [hs] at hheld
    cases hheld

theorem Mirrors.unheld (m : d.Mirrors ⟨w, ts⟩) (hg : Traffic.Guarded ⟨w, ts⟩) (ht : t ∈ ts)
    (hl : w.turnstile.holder = some t.id) (hh : t.stage.holds = false) : d.holder = none := by
  cases hd : d.holder with
  | none => rfl
  | some v =>
    obtain ⟨u, hu, -, hheld⟩ := m.holder v hd
    have hid : t.id = u.id := Option.some.inj (hl.symm.trans (hg.holds u hu hheld))
    cases List.inj_on_of_nodup_map hg.sound.distinct hu ht hid.symm
    rw [hh] at hheld
    cases hheld

/-- A step of a task that its visit does not make. -/
theorem Mirrors.aside (m : d.Mirrors ⟨w, ts⟩) (hn : (ts.map (·.id)).Nodup) (ht : t ∈ ts)
    (hid : t'.id = t.id) (hdate : w'.date = w.date) (hvault : w'.vault = w.vault)
    (hj : Journal.custody w'.journal = Journal.custody w.journal)
    (hq : ∀ o, t'.stage = .queued o → t.stage = .queued o) (hh : t'.stage.holds = t.stage.holds) :
    d.Mirrors ⟨w', Traffic.put ts t'⟩ := by
  refine m.apart hdate hvault hj ?_ ?_
  · intro u hu hin
    rcases Traffic.mem_put hu with rfl | ⟨hu, -⟩
    · exact ⟨t, ht, hid.symm, hq, fun hheld => hh ▸ hheld⟩
    · exact ⟨u, hu, rfl, fun _ => id, id⟩
  · intro u hu hheld
    by_cases he : u.id = t.id
    · cases List.inj_on_of_nodup_map hn hu ht he
      exact ⟨t', Traffic.mem_put_self ht hid, hid, hh ▸ hheld⟩
    · exact ⟨u, Traffic.mem_put_other hu (hid ▸ he), rfl, hheld⟩

theorem Mirrors.outside (m : d.Mirrors ⟨w, ts⟩) (hn : (ts.map (·.id)).Nodup) (ht : t ∈ ts)
    (hid : t'.id = t.id) (hdate : w'.date = w.date) (hvault : w'.vault = w.vault)
    (hj : Journal.custody w'.journal = Journal.custody w.journal) (hout : t.stage.isInside = false)
    (hout' : t'.stage.isInside = false) : d.Mirrors ⟨w', Traffic.put ts t'⟩ := by
  refine m.aside hn ht hid hdate hvault hj ?_ ?_
  · intro o ho
    rw [ho] at hout'
    cases hout'
  · rw [Stage.holds_of_outside hout, Stage.holds_of_outside hout']

theorem Mirrors.invalidate (m : d.Mirrors ⟨w, ts⟩) (token : String) :
    (d.rejecting token).Mirrors ⟨w.invalidate token, ts⟩ := by
  refine ⟨m.date, ?_, ?_, m.fresh, m.waiting, m.refreshing, m.holder⟩
  · exact congrArg (·.invalidate token) m.vault
  · exact congrArg (.invalidated token :: ·) m.told

theorem Mirrors.single (m : d.Mirrors ⟨w, ts⟩) {v : Nat} {a stage : Visit} {marks : List VisitMark}
    {vault : Vault} (ha : d.visit v = a) (h : Act c.buffer w.date w.vault v a stage marks vault)
    (hl : stage.holds = false) : Reaches c.buffer d (d.after v stage marks vault) := by
  have hdate : d.date = w.date := m.date
  have hvault : d.vault = w.vault := m.vault
  rw [← hdate, ← hvault, ← ha] at h
  refine .single (.act h fun hh => ?_)
  rw [hl] at hh
  cases hh

theorem Mirrors.reaches (m : d.Mirrors ⟨w, ts⟩) {v : Nat} {a stage : Visit} {marks : List VisitMark}
    {vault : Vault} (ha : d.visit v = a) (h : Spree c.buffer w.date v a w.vault stage marks vault)
    (hl : a.holds ∨ d.holder = none) : Reaches c.buffer d (d.after v stage marks vault) := by
  have hdate : d.date = w.date := m.date
  have hvault : d.vault = w.vault := m.vault
  rw [← hdate, ← hvault, ← ha] at h
  exact h.reaches (ha ▸ hl)

theorem Mirrors.move (m : d.Mirrors ⟨w, ts⟩) (hg : Traffic.Guarded ⟨w, ts⟩) (ht : t ∈ ts)
    (hm : t.Move p c w w' t') :
    ∃ d', Reaches c.buffer d d' ∧ d'.Mirrors ⟨w', Traffic.put ts t'⟩ := by
  have hn := hg.sound.distinct
  have hid := hm.id_eq
  have hdate := hm.date_eq
  cases hm with
  | stray hs _ => exact ⟨d, .refl, m.outside hn ht hid rfl rfl rfl (by rw [hs]; rfl) rfl⟩
  | refused ha _ => exact ⟨d, .refl, m.outside hn ht hid rfl rfl rfl ha.isInside rfl⟩
  | granted ha _ =>
    exact ⟨d, .refl, m.outside hn ht hid rfl rfl rfl ha.isInside t.admitted_isInside⟩
  | send hs _ _ | succeed hs _ _ _ _ | fail hs _ _ _ _ =>
    exact ⟨d, .refl, m.outside hn ht hid rfl rfl rfl (by rw [hs]; rfl) rfl⟩
  | slow hs _ _ _ _ _ _ | retry hs _ _ _ _ _ _ =>
    exact ⟨d, .refl, m.outside hn ht hid rfl rfl rfl (by rw [hs]; rfl) (Task.pause_isInside _ _)⟩
  | idle hs _ =>
    refine ⟨d, .refl, m.outside hn ht hid rfl rfl rfl ?_ rfl⟩
    rcases hs with hs | ⟨attempt, sent, wake, answer, hs⟩ <;> rw [hs] <;> rfl
  | found hs hu =>
    obtain ⟨k, hk⟩ := m.fresh
    have hv : d.visit (Nat.pair t.id k) = .arriving := hk _ _ (Nat.le_refl _)
    refine ⟨_, m.single hv (.hit hu) rfl,
      m.ends hn ht hid (by simp [hs, Stage.holds]) hdate rfl ?_ (t.obtained_isInside _) rfl⟩
    simp only [List.filterMap_cons, VisitMark.event?, Nat.unpair_pair, List.filterMap_nil]
    rfl
  | lined hs hu =>
    obtain ⟨k, hk⟩ := m.fresh
    have hv : d.visit (Nat.pair t.id k) = .arriving := hk _ _ (Nat.le_refl _)
    have hmiss := m.single hv (.miss hu) rfl
    have hcount : Step c.buffer
        (d.after (Nat.pair t.id k) .missed [.checked (Nat.pair t.id k) w.date w.vault] w.vault) _ :=
      .act (by rw [visit_after, if_pos rfl]; exact .count) (fun hh => by cases hh)
    rw [after_after fun hh => by cases hh] at hcount
    refine ⟨_, hmiss.tail hcount, m.go hn ht hid (by simp [hs, Stage.holds]) hdate rfl rfl ?_ ?_ ?_⟩
    · rintro o ⟨⟩
      rfl
    · intro hh
      cases hh
    · intro hh
      cases hh
  | shared hs hh hu =>
    obtain ⟨j, hj⟩ := m.waiting t ht _ hs
    have hfree := m.unheld hg ht hh (by rw [hs]; rfl)
    refine ⟨_, m.reaches hj (.share hu) (.inr hfree),
      m.ends hn ht hid (by simp [hs, Stage.holds]) hdate rfl ?_ (t.obtained_isInside _) rfl⟩
    simp only [List.filterMap_cons, VisitMark.event?, Nat.unpair_pair, List.filterMap_nil]
    rfl
  | sharedFailure hs hh hu hg' hf =>
    obtain ⟨j, hj⟩ := m.waiting t ht _ hs
    have hfree := m.unheld hg ht hh (by rw [hs]; rfl)
    refine ⟨_, m.reaches hj (.shareFailure hu hg' hf) (.inr hfree),
      m.ends hn ht hid (by simp [hs, Stage.holds]) hdate rfl ?_ (t.obtained_isInside _) rfl⟩
    simp only [List.filterMap_cons, VisitMark.event?, Nat.unpair_pair, List.filterMap_nil]
    rfl
  | refresh hs hh hu hg' =>
    obtain ⟨j, hj⟩ := m.waiting t ht _ hs
    have hfree := m.unheld hg ht hh (by rw [hs]; rfl)
    obtain ⟨marks, hspree, hquiet⟩ := Spree.refresh hu hg'
    refine ⟨_, m.reaches hj hspree (.inr hfree),
      m.go hn ht hid (by simp [hs, Stage.holds]) hdate rfl ?_ (by simp) (fun _ => ⟨_, rfl⟩) (fun _ => rfl)⟩
    rw [hquiet]
    rfl
  | exchange he =>
    have hh : t.stage.holds := by
      rcases he with hs | ⟨wake, -, hs⟩ <;> rw [hs] <;> rfl
    exact ⟨d, .refl, m.aside hn ht hid hdate rfl rfl (by simp) hh.symm⟩
  | issued hs hw hi =>
    obtain ⟨j, last, hj⟩ := m.refreshing t ht (by rw [hs]; rfl)
    refine ⟨_, m.reaches hj (.conclude (.issue hi)) (.inl rfl),
      m.ends hn ht hid (by simp [hj, Visit.holds]) hdate rfl ?_ (t.obtained_isInside _) rfl⟩
    simp only [List.filterMap_cons, VisitMark.event?, Nat.unpair_pair, List.filterMap_nil]
    rfl
  | @rest _ _ f hs _ _ _ | @fallBack _ _ f _ hs _ _ _ =>
    obtain ⟨j, last, hj⟩ := m.refreshing t ht (by rw [hs]; rfl)
    refine ⟨_, m.reaches hj (.single (.exchange (.error f))) (.inl rfl), m.go hn ht hid
      (by simp [hj, Visit.holds]) hdate rfl ?_ (by simp) (fun _ => ⟨_, rfl⟩) (fun _ => rfl)⟩
    simp only [List.filterMap_cons, VisitMark.event?, Nat.unpair_pair, List.filterMap_nil]
    rfl
  | refreshFailed hs hw hr hf =>
    obtain ⟨j, last, hj⟩ := m.refreshing t ht (by rw [hs]; rfl)
    refine ⟨_, m.reaches hj (.conclude .fail) (.inl rfl),
      m.ends hn ht hid (by simp [hj, Visit.holds]) hdate rfl ?_ (t.obtained_isInside _) rfl⟩
    simp only [List.filterMap_cons, VisitMark.event?, Nat.unpair_pair, List.filterMap_nil]
    rfl
  | @reject credential attempt sent wake answer _ _ _ hs hw _ _ _ _ =>
    have hheard : d.Mirrors ⟨w.heard p t.id (w.received attempt sent answer), _⟩ :=
      m.outside hn ht hid rfl rfl rfl (by rw [hs]; rfl) rfl
    exact ⟨_, .single (.invalidate d credential.accessToken), hheard.invalidate _⟩

/-- A task that is given up leaves the lock or its place before it. -/
theorem Mirrors.leave (m : d.Mirrors ⟨w, ts⟩) (hn : (ts.map (·.id)).Nodup) (ht : t ∈ ts)
    (hid : t'.id = t.id) (hdate : w'.date = w.date) (hvault : w'.vault = w.vault)
    (hj : Journal.custody w'.journal = Journal.custody w.journal)
    (hout : t'.stage.isInside = false) (buffer : Span) :
    ∃ d', Reaches buffer d d' ∧ d'.Mirrors ⟨w', Traffic.put ts t'⟩ := by
  by_cases hin : t.stage.isInside
  · have hvisit : ∃ j, Act buffer d.date d.vault (Nat.pair t.id j) (d.visit (Nat.pair t.id j)) .gone []
        d.vault ∧ (t.stage.holds → (d.visit (Nat.pair t.id j)).holds) := by
      by_cases hh : t.stage.holds
      · obtain ⟨j, last, hj'⟩ := m.refreshing t ht hh
        exact ⟨j, by rw [hj']; exact .abandon, fun _ => by rw [hj']; rfl⟩
      · obtain ⟨o, ho⟩ : ∃ o, t.stage = .queued o := by
          cases hs : t.stage <;> simp_all [Stage.isInside, Stage.holds]
        obtain ⟨j, hj'⟩ := m.waiting t ht o ho
        exact ⟨j, by rw [hj']; exact .giveUp, fun hheld => absurd hheld hh⟩
    obtain ⟨j, hact, hfrom⟩ := hvisit
    have hold : d.vault = w.vault := m.vault
    exact ⟨_, .single (.act hact fun hh => by cases hh),
      m.ends hn ht hid hfrom hdate (hvault.trans hold.symm) hj hout rfl⟩
  · exact ⟨d, .refl, m.outside hn ht hid hdate hvault hj (by simpa using hin) hout⟩

theorem Mirrors.step {s s' : Traffic σ} (m : d.Mirrors s) (hg : s.Guarded)
    (h : Traffic.Step p c s s') : ∃ d', Reaches c.buffer d d' ∧ d'.Mirrors s' := by
  have hn := hg.sound.distinct
  cases h with
  | begin w ts goal deadline =>
    refine ⟨d, .refl, m.apart rfl rfl rfl ?_ ?_⟩
    · intro u hu hin
      rcases List.mem_append.mp hu with hu | hu
      · exact ⟨u, hu, rfl, fun _ => id, id⟩
      · rw [List.mem_singleton.mp hu] at hin
        cases goal <;> cases hin
    · exact fun u hu hheld => ⟨u, List.mem_append_left _ hu, rfl, hheld⟩
  | move ht hm => exact m.move hg ht (Task.step_move hm)
  | expire ht hu hd =>
    exact m.leave hn ht (by rfl) (by rfl) (by rfl) (by rfl) (by rfl) c.buffer
  | @drop w ts t ht =>
    have hgone : ∃ d', Reaches c.buffer d d' ∧
        d'.Mirrors ⟨t.release w, Traffic.put ts { t with stage := .done .slot }⟩ :=
      m.leave hn ht (by rfl) (by rfl) (by rfl) (by rfl) (by rfl) c.buffer
    obtain ⟨d', hr, m'⟩ := hgone
    refine ⟨d', hr, m'.apart rfl rfl rfl ?_ ?_⟩
    · intro u hu _
      obtain ⟨hu, hne⟩ := Traffic.mem_without.mp hu
      exact ⟨u, Traffic.mem_put_other hu hne, rfl, fun _ => id, id⟩
    · intro u hu hheld
      rcases Traffic.mem_put hu with rfl | ⟨hu, hne⟩
      · cases hheld
      · exact ⟨u, Traffic.mem_without.mpr ⟨hu, hne⟩, rfl, hheld⟩
  | elapse _ | limit _ =>
    exact ⟨d, .refl, m.apart rfl rfl rfl (fun u hu _ => ⟨u, hu, rfl, fun _ => id, id⟩)
      (fun u hu hheld => ⟨u, hu, rfl, hheld⟩)⟩
  | date w ts date =>
    exact ⟨_, .single (.date d date),
      ⟨rfl, m.vault, m.told, m.fresh, m.waiting, m.refreshing, m.holder⟩⟩
  | invalidate w ts token => exact ⟨_, .single (.invalidate d token), m.invalidate token⟩

/-- Whatever tasks do is what visits could have done. -/
theorem Mirrors.reached {s s' : Traffic σ} (m : d.Mirrors s) (hg : s.Guarded)
    (h : Traffic.Reaches p c s s') : ∃ d', Reaches c.buffer d d' ∧ d'.Mirrors s' := by
  induction h with
  | refl => exact ⟨d, .refl, m⟩
  | tail hr hs ih =>
    obtain ⟨d₁, hr₁, m₁⟩ := ih
    obtain ⟨d₂, hr₂, m₂⟩ := m₁.step (hg.reaches hr) hs
    exact ⟨d₂, hr₁.trans hr₂, m₂⟩

end Lobby

end CatalogClient
