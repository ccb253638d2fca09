import CatalogClient.Credential.Vault
import Mathlib.Logic.Function.Basic
import Mathlib.Logic.Relation
/-!
Callers who want the credential of a vault, taken apart at every access to what they share: the vault, the
count of its refreshes, and the lock. The accesses follow one another in any order, while the calendar
moves and tokens are rejected. The record keeps what was seen and done, the latest first.
-/

namespace CatalogClient

namespace Vault

/-- The outcome of a refresh is stored before the refresh is counted. -/
def keep (v : Vault) : Except Failure Credential → Vault
  | .ok c => { v with credential := some c, rejected := false, lastFailure := none }
  | .error f => { v with lastFailure := some f }

def count (v : Vault) : Vault := { v with generation := v.generation + 1 }

theorem refreshed_eq (v : Vault) (result : Except Failure Credential) :
    v.refreshed result = (v.keep result).count := by
  cases result <;> rfl

theorem generation_keep (v : Vault) (result : Except Failure Credential) :
    (v.keep result).generation = v.generation := by
  cases result <;> rfl

theorem invalidate_cases (v : Vault) (token : String) :
    v.invalidate token = v ∨
      (∃ c, v.credential = some c ∧ c.accessToken = token) ∧
        v.invalidate token = { v with rejected := true } := by
  unfold invalidate
  cases hc : v.credential with
  | none => exact .inl rfl
  | some c =>
    by_cases ht : c.accessToken = token
    · exact .inr ⟨⟨c, rfl, ht⟩, by simp [ht]⟩
    · exact .inl (by simp [ht])

theorem usable?_eq_some {v : Vault} {now : UtcTime} {buffer : Span} {c : Credential} :
    v.usable? now buffer = some c ↔
      v.credential = some c ∧ v.rejected = false ∧ c.needsRefresh now buffer = false := by
  simp [usable?, Option.filter_eq_some_iff]

theorem usable?_eq_none {v : Vault} {now : UtcTime} {buffer : Span} :
    v.usable? now buffer = none ↔
      ∀ c, v.credential = some c → v.rejected = true ∨ c.needsRefresh now buffer = true := by
  simp only [usable?, Option.filter_eq_none_iff]
  refine forall_congr' fun c => imp_congr_right fun _ => ?_
  cases v.rejected <;> cases c.needsRefresh now buffer <;> simp

/-- The vault shows what the last refresh came to. -/
def Shows (v : Vault) : Except Failure Credential → Prop
  | .ok c => v.credential = some c ∧ v.lastFailure = none
  | .error f => v.lastFailure = some f

theorem shows_keep (v : Vault) (result : Except Failure Credential) : (v.keep result).Shows result := by
  cases result with
  | ok c => exact ⟨rfl, rfl⟩
  | error f => rfl

theorem Shows.of_eq {v v' : Vault} {result : Except Failure Credential} (h : v.Shows result)
    (hc : v'.credential = v.credential) (hf : v'.lastFailure = v.lastFailure) : v'.Shows result := by
  cases result with
  | ok c => exact ⟨hc.trans h.1, hf.trans h.2⟩
  | error f => exact hf.trans h

end Vault

/-- Where a caller stands who wants a credential. -/
inductive Visit
  | arriving
  /-- Found nothing usable, and is about to read the count of refreshes. -/
  | missed
  /-- Waits for the lock, having read the count. -/
  | waiting (observed : Nat)
  /-- Has the lock, and is about to read the count again. -/
  | inside (observed : Nat)
  /-- A refresh was counted meanwhile. -/
  | behind
  /-- Found nothing usable after that refresh, and is about to ask how it ended. -/
  | sharing
  /-- About to look for the last time. -/
  | leading
  | refreshing (answer : Option (Except Failure TokenGrant))
  /-- About to store what its refresh came to. -/
  | keeping (result : Except Failure Credential)
  /-- About to count its refresh. -/
  | closing (result : Except Failure Credential)
  | served (result : Except Failure Credential)
  | gone

def Visit.holds : Visit → Bool
  | .inside _ | .behind | .sharing | .leading | .refreshing _ | .keeping _ | .closing _ => true
  | _ => false

inductive VisitMark
  /-- A look at the vault without the lock. -/
  | checked (visit : Nat) (date : UtcTime) (vault : Vault)
  | counted (visit observed : Nat)
  /-- Getting the lock, and the vault then. -/
  | entered (visit : Nat) (vault : Vault)
  /-- A look at the vault with the lock. -/
  | woke (visit : Nat) (date : UtcTime) (vault : Vault)
  | exchanged (visit : Nat) (answer : Except Failure TokenGrant)
  | kept (visit : Nat) (result : Except Failure Credential)
  /-- The refresh that brought the count to a number. -/
  | refreshed (visit generation : Nat) (result : Except Failure Credential)
  | served (visit : Nat) (result : Except Failure Credential)
  | invalidated (token : String)

namespace VisitMark

def visit? : VisitMark → Option Nat
  | .checked v .. | .counted v _ | .entered v _ | .woke v .. | .exchanged v _ | .kept v _
  | .refreshed v .. | .served v _ => some v
  | .invalidated _ => none

def isRefresh : VisitMark → Bool
  | .refreshed .. => true
  | _ => false

/-- The count of refreshes when somebody looked. -/
def count? : VisitMark → Option Nat
  | .checked _ _ w | .entered _ w | .woke _ _ w => some w.generation
  | .counted _ o => some o
  | _ => none

end VisitMark

structure Lobby where
  date : UtcTime
  vault : Vault
  /-- Who has the lock. -/
  holder : Option Nat
  visit : Nat → Visit
  record : List VisitMark

namespace Lobby

def start (date : UtcTime) (vault : Vault) : Lobby := ⟨date, vault, none, fun _ => .arriving, []⟩

/-- One access of a caller: the stages before and after it, what it adds to the record, and the vault after
it. Whatever is asked of it, the token endpoint may answer anything, any number of times. -/
inductive Act (buffer : Span) (date : UtcTime) (vault : Vault) (v : Nat) :
    Visit → Visit → List VisitMark → Vault → Prop
  | hit {c : Credential} (hu : vault.usable? date buffer = some c) :
    Act buffer date vault v .arriving (.served (.ok c))
      [.served v (.ok c), .checked v date vault] vault
  | miss (hu : vault.usable? date buffer = none) :
    Act buffer date vault v .arriving .missed [.checked v date vault] vault
  | count :
    Act buffer date vault v .missed (.waiting vault.generation) [.counted v vault.generation] vault
  | take {o : Nat} :
    Act buffer date vault v (.waiting o) (.inside o) [.entered v vault] vault
  | lag {o : Nat} (hg : vault.generation ≠ o) : Act buffer date vault v (.inside o) .behind [] vault
  | lead {o : Nat} (hg : vault.generation = o) :
    Act buffer date vault v (.inside o) .leading [] vault
  | share {a : Visit} {c : Credential} (ha : a = .behind ∨ a = .leading)
    (hu : vault.usable? date buffer = some c) :
    Act buffer date vault v a (.served (.ok c)) [.served v (.ok c), .woke v date vault] vault
  | lack (hu : vault.usable? date buffer = none) :
    Act buffer date vault v .behind .sharing [.woke v date vault] vault
  | shareFailure {f : Failure} (hf : vault.lastFailure = some f) :
    Act buffer date vault v .sharing (.served (.error f)) [.served v (.error f)] vault
  | follow (hf : vault.lastFailure = none) : Act buffer date vault v .sharing .leading [] vault
  | refresh (hu : vault.usable? date buffer = none) :
    Act buffer date vault v .leading (.refreshing none) [.woke v date vault] vault
  | exchange {last : Option (Except Failure TokenGrant)} (answer : Except Failure TokenGrant) :
    Act buffer date vault v (.refreshing last) (.refreshing (some answer)) [.exchanged v answer]
      vault
  | issue {token : TokenGrant} {c : Credential} (hi : Credential.issued token date = .ok c) :
    Act buffer date vault v (.refreshing (some (.ok token))) (.keeping (.ok c)) [] vault
  | fail {f : Failure} :
    Act buffer date vault v (.refreshing (some (.error f))) (.keeping (.error f)) [] vault
  | keep {result : Except Failure Credential} :
    Act buffer date vault v (.keeping result) (.closing result) [.kept v result]
      (vault.keep result)
  | close {result : Except Failure Credential} :
    Act buffer date vault v (.closing result) (.served result)
      [.served v result, .refreshed v (vault.generation + 1) result] vault.count
  | giveUp {o : Nat} : Act buffer date vault v (.waiting o) .gone [] vault
  | abandon {last : Option (Except Failure TokenGrant)} :
    Act buffer date vault v (.refreshing last) .gone [] vault

def after (d : Lobby) (v : Nat) (stage : Visit) (marks : List VisitMark) (vault : Vault) : Lobby where
  date := d.date
  vault := vault
  holder := if stage.holds then some v else if (d.visit v).holds then none else d.holder
  visit := Function.update d.visit v stage
  record := marks ++ d.record

def rejecting (d : Lobby) (token : String) : Lobby :=
  { d with
    vault := d.vault.invalidate token
    record := .invalidated token :: d.record }

@[simp]
theorem mem_rejecting {d : Lobby} {token : String} {m : VisitMark} :
    m ∈ (d.rejecting token).record ↔ m = .invalidated token ∨ m ∈ d.record := List.mem_cons

/-- A caller gets the lock when it is free, and gives it back with the last access it needs it for: no
access of another caller but one that gets the lock tells whether it is free. -/
inductive Step (buffer : Span) : Lobby → Lobby → Prop
  | act {d : Lobby} {v : Nat} {stage : Visit} {marks : List VisitMark} {vault : Vault}
    (h : Act buffer d.date d.vault v (d.visit v) stage marks vault)
    (hl : stage.holds → (d.visit v).holds ∨ d.holder = none) :
    Step buffer d (d.after v stage marks vault)
  | date (d : Lobby) (date : UtcTime) : Step buffer d { d with date := date }
  | invalidate (d : Lobby) (token : String) : Step buffer d (d.rejecting token)

def Reaches (buffer : Span) : Lobby → Lobby → Prop := Relation.ReflTransGen (Step buffer)

variable {buffer : Span} {date : UtcTime} {vault vault' : Vault} {v : Nat} {a b : Visit}
  {marks : List VisitMark} {d d' : Lobby}

namespace Act

theorem own (h : Act buffer date vault v a b marks vault') :
    ∀ m ∈ marks, m.visit? = some v := by
  cases h <;> simp [VisitMark.visit?]

theorem vault_eq (h : Act buffer date vault v a b marks vault') (ha : a.holds = false) :
    vault' = vault := by
  cases h <;> first | rfl | cases ha

theorem storing (h : Act buffer date vault v a b marks vault') :
    (∃ result, a = .keeping result ∧ b = .closing result ∧ marks = [.kept v result] ∧
      vault' = vault.keep result) ∨
    (∃ result, a = .closing result ∧ b = .served result ∧ vault' = vault.count ∧
      marks = [.served v result, .refreshed v (vault.generation + 1) result]) ∨
    (vault' = vault ∧ (∀ result, a ≠ .closing result) ∧ (∀ result, b ≠ .closing result) ∧
      ∀ m ∈ marks, m.isRefresh = false ∧ (∀ n, m.count? = some n → n = vault.generation) ∧
        ∀ u w, m = .entered u w → b.holds) := by
  cases h with
  | keep => exact .inl ⟨_, rfl, rfl, rfl, rfl⟩
  | close => exact .inr (.inl ⟨_, rfl, rfl, rfl, rfl⟩)
  | share ha =>
    refine .inr (.inr ?_)
    rcases ha with rfl | rfl <;> simp [VisitMark.isRefresh, VisitMark.count?]
  | _ => exact .inr (.inr (by simp [VisitMark.isRefresh, VisitMark.count?, Visit.holds]))

theorem looking (h : Act buffer date vault v a b marks vault') :
    ∀ m ∈ marks, (∀ u date' w, m = .checked u date' w → a = .arriving ∧ w = vault) ∧
      (∀ u o, m = .counted u o → a = .missed) ∧
      (∀ u w, m = .entered u w → (∃ o, a = .waiting o) ∧ w = vault) ∧
      ∀ u date' w, m = .woke u date' w →
        a.holds ∧ (∀ result, a ≠ .closing result) ∧ w = vault := by
  cases h with
  | share ha => rcases ha with rfl | rfl <;> simp [Visit.holds]
  | _ => simp [Visit.holds]

end Act

theorem visit_after (d : Lobby) (v : Nat) (stage : Visit) (marks : List VisitMark) (vault : Vault)
    (u : Nat) : (d.after v stage marks vault).visit u = if u = v then stage else d.visit u := by
  by_cases h : u = v <;> simp [after, h]

def Locked (d : Lobby) : Prop := ∀ v, (d.visit v).holds ↔ d.holder = some v

theorem Locked.start (date : UtcTime) (vault : Vault) : (Lobby.start date vault).Locked := by
  intro v
  simp [Lobby.start, Visit.holds]

theorem Locked.step (h : d.Locked) (hs : Step buffer d d') : d'.Locked := by
  cases hs with
  | @act v stage marks vault hact hl =>
    intro u
    have hu := h u
    have hv := h v
    rw [visit_after]
    simp only [after]
    cases hstage : stage.holds with
    | true =>
      have hfree : d.holder = some v ∨ d.holder = none := (hl hstage).imp_left hv.mp
      by_cases huv : u = v
      · simp [huv, hstage]
      · rw [if_neg huv, hu]
        rcases hfree with hfree | hfree <;> simp [hfree, Ne.symm huv]
    | false =>
      by_cases huv : u = v
      · subst huv
        cases hb : (d.visit u).holds with
        | true => simp [hstage]
        | false => simpa [hstage, hb] using hu
      · rw [if_neg huv, hu]
        cases hb : (d.visit v).holds with
        | true => simp [hv.mp hb, Ne.symm huv]
        | false => simp
  | date | invalidate => exact h

theorem Locked.only (h : d.Locked) {u : Nat} (hu : (d.visit u).holds) (hv : (d.visit v).holds) :
    u = v :=
  Option.some.inj (((h u).mp hu).symm.trans ((h v).mp hv))

theorem Locked.reaches (h : d.Locked) (hr : Reaches buffer d d') : d'.Locked := by
  induction hr with
  | refl => exact h
  | tail _ hs ih => exact ih.step hs

end Lobby

end CatalogClient
