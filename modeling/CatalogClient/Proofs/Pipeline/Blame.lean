import CatalogClient.Pipeline.Effect
import CatalogClient.Proofs.Pipeline.Tries
/-!
Where the failures of calls come from: the answer to an attempt, the answer to an exchange, the deadline,
or the call itself.
-/

namespace CatalogClient

namespace Response

theorem toFailure_status (a : Response) (path : String) : (a.toFailure path).status? = some a.status := by
  unfold toFailure
  split <;> simp_all [Failure.status?]

end Response

namespace TokenEndpoint

theorem refusal_status (a : Response) : (refusal a).status? = some a.status := by
  unfold refusal
  split <;> simp_all [Failure.status?]

theorem read_status {a : Response} {f : Failure} (h : read a = .error f) :
    f.status? = some a.status := by
  unfold read at h
  split at h
  · cases hd : a.decode TokenGrant.decoder with
    | ok token =>
      rw [hd] at h
      cases h
    | error f' =>
      rw [hd] at h
      cases h
      rfl
  · cases h
    exact refusal_status a

end TokenEndpoint

def Peer.Fails {σ : Type} (p : Peer σ) (f : Failure) : Prop :=
  ∃ a peer, (p.send a peer).1.answer = .error f

namespace World

variable {σ : Type}

/-- An exchange ended with the failure. -/
def Reported (w : World σ) (f : Failure) : Prop := ∃ time i, ⟨time, .issued i (.error f)⟩ ∈ w.journal

theorem Reported.mono {w w' : World σ} {f : Failure} (h : w.Reported f) {es : List Entry}
    (hj : w'.journal = es ++ w.journal) : w'.Reported f := by
  obtain ⟨time, i, hmem⟩ := h
  exact ⟨time, i, hj ▸ List.mem_append_right _ hmem⟩

theorem lastFailure_invalidate (w : World σ) (token : String) :
    (w.invalidate token).vault.lastFailure = w.vault.lastFailure := by
  by_cases h : w.vault.credential.any (·.accessToken = token) <;>
    simp [invalidate, note, Vault.invalidate, h]

end World

namespace Traffic

variable {σ : Type} {p : Peer σ} {c : Setup}

/-- A reason for the failure of a task: an answer of the service that is no success, the connection, an
exchange, a deadline, or what the task is for. -/
inductive Reason (p : Peer σ) (w : World σ) (t : Task) (f : Failure) : Prop
  | answered (a : Response) (path : String) (ha : a.isSuccess = false) (hf : f = a.toFailure path)
  | connection (h : p.Fails f)
  | exchange (h : w.Reported f)
  | deadline (elapsed : Span) (hf : f = .timeout elapsed)
  | stray (h : t.goal = .stray f)

theorem Reason.mono {w w' : World σ} {t t' : Task} {f : Failure} (h : Reason p w t f)
    {es : List Entry} (hj : w'.journal = es ++ w.journal) (hg : t'.goal = t.goal) :
    Reason p w' t' f := by
  cases h with
  | answered a path ha hf => exact .answered a path ha hf
  | connection h => exact .connection h
  | exchange h => exact .exchange (h.mono hj)
  | deadline elapsed hf => exact .deadline elapsed hf
  | stray h => exact .stray (hg.trans h)

/-- The failures of exchanges are those the peer answered with, and the last refresh failed with one. -/
structure Accounted (p : Peer σ) (w : World σ) : Prop where
  exchanges : ∀ f, w.Reported f → ∃ g peer, (p.exchange g peer).1.answer = .error f
  vault : ∀ f, w.vault.lastFailure = some f → w.Reported f

/-- What a task awaits is an answer of the peer, and when it fails there is a reason. -/
structure Explained (p : Peer σ) (w : World σ) (t : Task) : Prop where
  token : ∀ r wake answer, t.stage = .awaitingToken r wake answer →
    ∃ g peer, (p.exchange g peer).1.answer = answer
  attempt : ∀ answer, t.Awaits answer → ∃ a peer, (p.send a peer).1.answer = answer
  failure : ∀ f, t.stage = .done (.answer (.error f)) → Reason p w t f

theorem Accounted.extend {w w' : World σ} (h : Accounted p w) (events : List Event)
    (hj : w'.journal = events.map (⟨w.now, ·⟩) ++ w.journal)
    (hno : ∀ i f, .issued i (.error f) ∉ events)
    (hv : w'.vault.lastFailure = w.vault.lastFailure) : Accounted p w' := by
  refine ⟨?_, ?_⟩
  · rintro f ⟨time, i, hmem⟩
    rw [hj] at hmem
    rcases List.mem_append.mp hmem with hmem | hmem
    · obtain ⟨event, hevent, he⟩ := List.mem_map.mp hmem
      cases he
      exact absurd hevent (hno i f)
    · exact h.exchanges f ⟨time, i, hmem⟩
  · intro f hf
    exact (h.vault f (hv ▸ hf)).mono hj

theorem Accounted.move {w w' : World σ} {t t' : Task} (h : Accounted p w) (ht : Explained p w t)
    (hm : t.Move p c w w' t') : Accounted p w' := by
  obtain ⟨events, hj, -, hissued⟩ := hm.journal_eq
  refine ⟨?_, ?_⟩
  · rintro f ⟨time, i, hmem⟩
    rw [hj] at hmem
    rcases List.mem_append.mp hmem with hmem | hmem
    · obtain ⟨event, hevent, he⟩ := List.mem_map.mp hmem
      cases he
      obtain ⟨r, wake, hs⟩ := hissued i (.error f) hevent
      exact ht.token r wake _ hs
    · exact h.exchanges f ⟨time, i, hmem⟩
  · have hold : ∀ f, w.vault.lastFailure = some f → w'.Reported f := fun f hf =>
      (h.vault f hf).mono hj
    cases hm with
    | issued hs hw hi =>
      intro f hf
      cases hf
    | refreshFailed hs hw hr hf =>
      intro f hf
      cases hf
      exact ⟨_, _, List.mem_cons_of_mem _ (List.mem_cons_of_mem _ List.mem_cons_self)⟩
    | reject hs hw hg hf ha hr =>
      intro f hf
      exact hold f ((World.lastFailure_invalidate _ _).symm.trans hf)
    | _ => exact hold

theorem Explained.frame {w w' : World σ} {t : Task} (h : Explained p w t) {es : List Entry}
    (hj : w'.journal = es ++ w.journal) : Explained p w' t :=
  ⟨h.token, h.attempt, fun f hf => (h.failure f hf).mono hj rfl⟩

theorem Explained.same {w w' : World σ} {t : Task} (h : Explained p w t)
    (hj : w'.journal = w.journal) : Explained p w' t :=
  h.frame (hj.trans (List.nil_append _).symm)

theorem reason_of_outcome {w w' : World σ} {t t' : Task} (h : Explained p w t)
    {answer : Except Failure Response} (ha : t.Awaits answer) {elapsed : Span} {n : Nat}
    {path : String} {f : Failure}
    (hf : RetryPolicy.outcome (answer.map (.stamped elapsed n)) path = .error f) :
    Reason p w' t' f := by
  rcases RetryPolicy.outcome_error hf with he | ⟨a, -, hok, hfail⟩
  · cases answer with
    | ok a => cases he
    | error f' =>
      cases he
      exact .connection (h.attempt _ ha)
  · exact .answered a path hok hfail

/-- A stage in which nothing is awaited from the peer, and no call has failed. -/
def quiet : Stage → Bool
  | .awaitingToken .. | .awaitingAnswer .. | .done (.answer (.error _)) => false
  | _ => true

theorem Explained.of_quiet {w : World σ} {t : Task} (h : quiet t.stage) : Explained p w t := by
  refine ⟨?_, ?_, ?_⟩
  · intro r wake answer hs
    rw [hs] at h
    cases h
  · rintro answer ⟨_, _, _, _, hs⟩
    rw [hs] at h
    cases h
  · intro f hs
    rw [hs] at h
    cases h

theorem Explained.of_failed {w : World σ} {t : Task} {f : Failure} (h : Reason p w t f) :
    Explained p w { t with stage := .done (.answer (.error f)) } := by
  refine ⟨by simp, by simp [Task.Awaits], ?_⟩
  rintro _ ⟨⟩
  exact h.mono (List.nil_append _).symm rfl

theorem quiet_obtained_ok (t : Task) (credential : Credential) : quiet (t.obtained (.ok credential)) := by
  obtain ⟨id, goal, started, deadline, stage, retry⟩ := t
  cases goal <;> rfl

theorem quiet_admitted (t : Task) : quiet t.admitted := by
  obtain ⟨id, goal, started, deadline, stage, retry⟩ := t
  cases goal <;> rfl

theorem quiet_pause (wake : Instant) (delay : Span) :
    quiet (if delay.isZero then .asking else .pausing wake) := by
  split <;> rfl

theorem Explained.of_obtained {w : World σ} {t : Task} {f : Failure} (h : Reason p w t f) :
    Explained p w { t with stage := t.obtained (.error f) } := by
  by_cases hg : ∃ r url, t.goal = .call r url
  · obtain ⟨r, url, hg⟩ := hg
    rw [Task.obtained_error hg]
    exact .of_failed h
  · refine .of_quiet ?_
    obtain ⟨id, goal, started, deadline, stage, retry⟩ := t
    cases goal with
    | call r url => exact absurd ⟨r, url, rfl⟩ hg
    | _ => rfl

theorem Explained.move {w w' : World σ} {t t' : Task} (ha : Accounted p w) (h : Explained p w t)
    (hm : t.Move p c w w' t') : Explained p w' t' := by
  obtain ⟨events, hj, -⟩ := hm.journal_eq
  cases hm with
  | stray hs hg => exact .of_failed (.stray hg)
  | refused | lined | refresh | rest | fallBack | succeed | reject | idle => exact .of_quiet rfl
  | granted => exact .of_quiet (quiet_admitted t)
  | found | shared | issued => exact .of_quiet (quiet_obtained_ok t _)
  | slow | retry => exact .of_quiet (quiet_pause _ _)
  | sharedFailure hs hh hu hg hf =>
    exact .of_obtained (.exchange ((ha.vault _ hf).mono hj))
  | @exchange r he =>
    refine ⟨?_, by simp [Task.Awaits], by simp⟩
    rintro _ _ _ ⟨⟩
    exact ⟨r.grant, w.peer, rfl⟩
  | refreshFailed hs hw hr hf =>
    refine .of_obtained (.exchange ⟨w.now, t.id, ?_⟩)
    exact List.mem_cons_of_mem _ (List.mem_cons_of_mem _ List.mem_cons_self)
  | send hs hg hn =>
    refine ⟨by simp, ?_, by simp⟩
    rintro answer ⟨_, _, _, _, hs'⟩
    cases hs'
    exact ⟨_, w.peer, rfl⟩
  | fail hs hw hg hf hd =>
    exact .of_failed (reason_of_outcome h ⟨_, _, _, _, hs⟩ hf)

theorem explained_kept : Kept p c (Accounted p) (Explained p) where
  begin w goal deadline h := by
    refine ⟨h.extend [] rfl (by simp) rfl, .of_quiet ?_, fun u hu => hu.same rfl⟩
    cases goal <;> rfl
  move w t w' t' h ht hm := by
    obtain ⟨events, hj, -⟩ := hm.journal_eq
    exact ⟨h.move ht hm, ht.move h hm, fun u _ hu => hu.frame hj⟩
  expire w t h _ _ _ := by
    have hj : (t.expire w).1.journal = [Event.expired t.id].map (⟨w.now, ·⟩) ++ w.journal := rfl
    exact ⟨h.extend _ hj (by simp) rfl, .of_failed (.deadline _ rfl), fun u _ hu => hu.frame hj⟩
  drop w t h _ := ⟨h.extend [] rfl (by simp) rfl, fun u _ hu => hu.same rfl⟩
  elapse w time h _ := ⟨h.extend [] rfl (by simp) rfl, fun u hu => hu.same rfl⟩
  date w date h := ⟨h.extend [] rfl (by simp) rfl, fun u hu => hu.same rfl⟩
  limit w a mark l h _ := ⟨h.extend [] rfl (by simp) rfl, fun u hu => hu.same rfl⟩
  invalidate w token h := by
    have hj : (w.invalidate token).journal =
      [Event.invalidated token].map (⟨w.now, ·⟩) ++ w.journal := rfl
    exact ⟨h.extend _ hj (by simp) (w.lastFailure_invalidate token), fun u hu => hu.frame hj⟩

theorem accounted_start (p : Peer σ) (date : UtcTime) (limiter : Limiter)
    (credential : Option Credential) (peer : σ) :
    Accounted p (World.start date limiter credential peer) := by
  refine ⟨?_, ?_⟩
  · rintro f ⟨time, i, hmem⟩
    cases hmem
  · intro f hf
    cases hf

end Traffic

end CatalogClient
