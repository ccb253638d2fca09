/-!
Computations that may fail, taken apart at their steps.
-/

namespace CatalogClient

theorem except_bind_ok {ε α β : Type} {x : Except ε α} {f : α → Except ε β} {b : β} :
    x >>= f = .ok b ↔ ∃ a, x = .ok a ∧ f a = .ok b := by
  constructor
  · intro h
    cases x with
    | error e => cases h
    | ok a => exact ⟨a, rfl, h⟩
  · rintro ⟨a, rfl, h⟩
    exact h

section Each

variable {ε α : Type} {f : α → Except ε Unit} {as : List α}

theorem except_forM_cons (a : α) : (a :: as).forM f = f a >>= fun _ => as.forM f := rfl

theorem except_forM_ok : as.forM f = .ok () ↔ ∀ a ∈ as, f a = .ok () := by
  induction as with
  | nil => exact ⟨fun _ a ha => absurd ha List.not_mem_nil, fun _ => rfl⟩
  | cons a as ih =>
    rw [except_forM_cons, except_bind_ok, List.forall_mem_cons, ← ih]
    exact ⟨fun ⟨_, ha, has⟩ => ⟨ha, has⟩, fun ⟨ha, has⟩ => ⟨(), ha, has⟩⟩

theorem except_forM_error {e : ε} (h : as.forM f = .error e) :
    ∃ before a after, as = before ++ a :: after ∧ (∀ b ∈ before, f b = .ok ()) ∧ f a = .error e := by
  induction as with
  | nil => cases h
  | cons a as ih =>
    rw [except_forM_cons] at h
    cases ha : f a with
    | error e' =>
      rw [ha] at h
      cases h
      exact ⟨[], a, as, rfl, fun b hb => absurd hb List.not_mem_nil, ha⟩
    | ok u =>
      rw [ha] at h
      obtain ⟨before, b, after, rfl, hbefore, hb⟩ := ih h
      exact ⟨a :: before, b, after, rfl, List.forall_mem_cons.mpr ⟨ha, hbefore⟩, hb⟩

end Each

section Map

variable {ε α β : Type} {f : α → Except ε β} {as : List α}

theorem except_mapM_cons (a : α) :
    (a :: as).mapM f = f a >>= fun b => as.mapM f >>= fun bs => .ok (b :: bs) := by
  rw [List.mapM_cons]
  rfl

theorem except_mapM_ok {bs : List β} (h : as.mapM f = .ok bs) : ∀ a ∈ as, ∃ b, f a = .ok b := by
  induction as generalizing bs with
  | nil => exact fun a ha => absurd ha List.not_mem_nil
  | cons a as ih =>
    rw [except_mapM_cons] at h
    obtain ⟨b, hb, h⟩ := except_bind_ok.mp h
    obtain ⟨bs, hbs, -⟩ := except_bind_ok.mp h
    exact List.forall_mem_cons.mpr ⟨⟨b, hb⟩, ih hbs⟩

theorem except_mapM_error {e : ε} (h : as.mapM f = .error e) : ∃ a ∈ as, f a = .error e := by
  induction as with
  | nil => cases h
  | cons a as ih =>
    rw [except_mapM_cons] at h
    cases ha : f a with
    | error e' =>
      rw [ha] at h
      cases h
      exact ⟨a, List.mem_cons_self, ha⟩
    | ok b =>
      rw [ha] at h
      cases has : as.mapM f with
      | error e' =>
        rw [has] at h
        cases h
        obtain ⟨a', ha', hfault⟩ := ih has
        exact ⟨a', List.mem_cons_of_mem _ ha', hfault⟩
      | ok bs =>
        rw [has] at h
        cases h

end Map

variable {α β γ : Type} {f : α → β} {g : β → Option γ}

theorem mapM_map_some {k : α → γ} {as : List α} (h : ∀ a ∈ as, g (f a) = some (k a)) :
    (as.map f).mapM g = some (as.map k) := by
  induction as with
  | nil => rfl
  | cons a as ih =>
    rw [List.map_cons, List.mapM_cons, h a List.mem_cons_self, ih fun b hb => h b (List.mem_cons_of_mem _ hb)]
    rfl

/-- Of a reader of elements that is described by what it accepts and what it makes of that. -/
theorem mapM_eq_some_iff {p : β → Prop} {k : β → γ} (hg : ∀ b c, g b = some c ↔ p b ∧ c = k b) {bs : List β}
    {cs : List γ} : bs.mapM g = some cs ↔ (∀ b ∈ bs, p b) ∧ cs = bs.map k := by
  induction bs generalizing cs with
  | nil => simp [eq_comm]
  | cons b bs ih =>
    rw [List.mapM_cons, Option.bind_eq_bind, Option.bind_eq_some_iff, List.forall_mem_cons, List.map_cons]
    constructor
    · rintro ⟨c, hc, h⟩
      obtain ⟨cs', hcs, h⟩ := Option.bind_eq_some_iff.mp h
      cases h
      obtain ⟨hb, rfl⟩ := (hg b c).mp hc
      obtain ⟨hbs, rfl⟩ := ih.mp hcs
      exact ⟨⟨hb, hbs⟩, rfl⟩
    · rintro ⟨⟨hb, hbs⟩, rfl⟩
      refine ⟨k b, (hg b _).mpr ⟨hb, rfl⟩, ?_⟩
      rw [ih.mpr ⟨hbs, rfl⟩]
      rfl

theorem forall_of_mapM {p : γ → Prop} (hg : ∀ b c, g b = some c → p c) {bs : List β} {cs : List γ}
    (h : bs.mapM g = some cs) : ∀ c ∈ cs, p c := by
  induction bs generalizing cs with
  | nil =>
    cases h
    exact fun c hc => absurd hc List.not_mem_nil
  | cons b bs ih =>
    rw [List.mapM_cons] at h
    obtain ⟨c, hc, h⟩ := Option.bind_eq_some_iff.mp h
    obtain ⟨cs, hcs, h⟩ := Option.bind_eq_some_iff.mp h
    cases h
    exact List.forall_mem_cons.mpr ⟨hg b c hc, ih hcs⟩

end CatalogClient
