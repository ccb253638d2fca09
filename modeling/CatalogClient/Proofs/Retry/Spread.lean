import CatalogClient.Proofs.Retry.Growth
/-!
What jitter makes of a delay: whole milliseconds, at most those of the delay and at least none or half of them, and
every number of these for some draw. So it never lengthens a delay, and none exceeds the greatest one.
-/

namespace CatalogClient

namespace Span

theorem wholeMillis_lt (d : Span) : d.wholeMillis < Width.beyond64 :=
  Nat.lt_of_le_of_lt (Nat.min_le_right _ _) (by decide)

theorem wholeMillis_le (d : Span) : d.wholeMillis * nanosPerMilli ≤ d.nanos :=
  calc d.wholeMillis * nanosPerMilli
    _ ≤ d.nanos / nanosPerMilli * nanosPerMilli := Nat.mul_le_mul_right _ (Nat.min_le_left _ _)
    _ ≤ d.nanos := Nat.div_mul_le_self _ _

/-- Milliseconds that fit 64 bits are a span, for spans have that many seconds. -/
theorem nanos_ofMillis {n : Nat} (h : n < Width.beyond64) : (ofMillis n).nanos = n * nanosPerMilli := by
  have hrange : n * nanosPerMilli < Width.beyond64 * nanosPerSecond :=
    Nat.mul_lt_mul_of_lt_of_le h (by decide) (by decide)
  rw [ofMillis, ofNanos, dif_pos hrange]

end Span

namespace Jitter

/-- The greatest number that is asked of the source of draws, the least being zero. -/
def greatestDraw (j : Jitter) (d : Span) : Nat := d.wholeMillis - j.least d

/-- Some draw that the source can give makes the one span of the other. -/
def Picks (j : Jitter) (d s : Span) : Prop := ∃ draw ≤ j.greatestDraw d, j.apply d draw = s

variable {j : Jitter} {d s : Span} {draw : Nat}

theorem least_le (j : Jitter) (d : Span) : j.least d ≤ d.wholeMillis := by
  cases j with
  | equal => exact Nat.div_le_self _ _
  | _ => exact Nat.zero_le _

theorem least_add_le (h : draw ≤ j.greatestDraw d) : j.least d + draw ≤ d.wholeMillis := by
  have hleast := j.least_le d
  rw [greatestDraw] at h
  omega

/-- A greater draw counts as one that the source can give. -/
theorem apply_mod (j : Jitter) (d : Span) (draw : Nat) :
    j.apply d (draw % (j.greatestDraw d + 1)) = j.apply d draw := by
  cases j with
  | none => rfl
  | _ => exact congrArg (fun n => Span.ofMillis (_ + n)) (Nat.mod_mod _ _)

theorem picks_apply (j : Jitter) (d : Span) (draw : Nat) : j.Picks d (j.apply d draw) :=
  ⟨_, Nat.le_of_lt_succ (Nat.mod_lt _ (Nat.succ_pos _)), j.apply_mod d draw⟩

theorem nanos_apply (hj : j ≠ .none) (h : draw ≤ j.greatestDraw d) :
    (j.apply d draw).nanos = (j.least d + draw) * nanosPerMilli := by
  have happly : j.apply d draw = .ofMillis (j.least d + draw % (j.greatestDraw d + 1)) := by
    cases j with
    | none => exact absurd rfl hj
    | _ => rfl
  rw [happly, Nat.mod_eq_of_lt (Nat.lt_succ_of_le h)]
  exact Span.nanos_ofMillis (Nat.lt_of_le_of_lt (least_add_le h) d.wholeMillis_lt)

theorem picks_iff (hj : j ≠ .none) :
    j.Picks d s ↔ ∃ k, j.least d ≤ k ∧ k ≤ d.wholeMillis ∧ s.nanos = k * nanosPerMilli := by
  constructor
  · rintro ⟨draw, hdraw, rfl⟩
    exact ⟨_, Nat.le_add_right _ _, least_add_le hdraw, nanos_apply hj hdraw⟩
  · rintro ⟨k, hleast, hk, hs⟩
    have hdraw : k - j.least d ≤ j.greatestDraw d := Nat.sub_le_sub_right hk _
    refine ⟨_, hdraw, Span.eq_of_nanos ?_⟩
    rw [nanos_apply hj hdraw, Nat.add_sub_cancel' hleast, hs]

theorem Picks.le (h : j.Picks d s) : s ≤ d := by
  by_cases hj : j = .none
  · subst hj
    obtain ⟨draw, -, rfl⟩ := h
    exact Nat.le_refl d.nanos
  · obtain ⟨k, -, hk, hs⟩ := (picks_iff hj).mp h
    calc s.nanos
      _ = k * nanosPerMilli := hs
      _ ≤ d.wholeMillis * nanosPerMilli := Nat.mul_le_mul_right _ hk
      _ ≤ d.nanos := d.wholeMillis_le

theorem apply_le (j : Jitter) (d : Span) (draw : Nat) : j.apply d draw ≤ d := (j.picks_apply d draw).le

end Jitter

namespace Backoff

theorem delay_le_max (b : Backoff) (retry draw : Nat) : b.delay retry draw ≤ b.max :=
  Nat.le_trans (b.jitter.apply_le (b.rawDelay retry) draw) (b.rawDelay_le_max retry)

/-- Without jitter a delay stays. Full jitter picks any number of whole milliseconds up to those of the delay, equal
jitter any from half of them. Nothing on the way leaves 64 bits, and no delay is longer for its jitter. -/
theorem spread_within (d : Span) :
    (∀ s, Jitter.none.Picks d s ↔ s = d) ∧
      (∀ s, Jitter.full.Picks d s ↔ ∃ k ≤ d.wholeMillis, s.nanos = k * nanosPerMilli) ∧
      (∀ s, Jitter.equal.Picks d s ↔
        ∃ k, d.wholeMillis / 2 ≤ k ∧ k ≤ d.wholeMillis ∧ s.nanos = k * nanosPerMilli) ∧
      (d.wholeMillis < Width.beyond64 ∧ ∀ j : Jitter, j.least d ≤ d.wholeMillis ∧
        ∀ draw ≤ j.greatestDraw d, j.least d + draw < Width.beyond64) ∧
      (∀ (j : Jitter) (draw : Nat), j.Picks d (j.apply d draw) ∧ j.apply d draw ≤ d) ∧
      ∀ (b : Backoff) (retry draw : Nat), b.delay retry draw ≤ b.max := by
  refine ⟨fun s => ⟨?_, ?_⟩, fun s => ?_, fun s => Jitter.picks_iff (by decide), ⟨d.wholeMillis_lt, fun j => ?_⟩,
    fun j draw => ⟨j.picks_apply d draw, j.apply_le d draw⟩, delay_le_max⟩
  · rintro ⟨draw, -, rfl⟩
    rfl
  · rintro rfl
    exact Jitter.none.picks_apply s 0
  · rw [Jitter.picks_iff (by decide)]
    simp only [Jitter.least, Nat.zero_le, true_and]
  · exact ⟨j.least_le d, fun draw hdraw => Nat.lt_of_le_of_lt (Jitter.least_add_le hdraw) d.wholeMillis_lt⟩

/-- The longest span has more milliseconds than 64 bits hold, and both ends of what is left of it are picked. -/
theorem spread_within_longest : Width.beyond64 ≤ Span.longest.nanos / nanosPerMilli ∧
    Jitter.full.Picks .longest .zero ∧ Jitter.full.Picks .longest (.ofMillis (Width.beyond64 - 1)) ∧
    Jitter.equal.Picks .longest (.ofMillis (Width.beyond64 / 2 - 1)) ∧
    ¬ Jitter.equal.Picks .longest (.ofMillis (Width.beyond64 / 2 - 2)) := by
  obtain ⟨-, hfull, hequal, -⟩ := spread_within .longest
  refine ⟨by decide, (hfull _).mpr ⟨0, by decide, rfl⟩, (hfull _).mpr ⟨Width.beyond64 - 1, by decide, by decide⟩,
    (hequal _).mpr ⟨Width.beyond64 / 2 - 1, by decide, by decide, by decide⟩, ?_⟩
  rw [hequal]
  rintro ⟨k, hleast, -, hk⟩
  have hnanos : (Span.ofMillis (Width.beyond64 / 2 - 2)).nanos = (Width.beyond64 / 2 - 2) * nanosPerMilli := by decide
  rw [hnanos] at hk
  obtain rfl := Nat.mul_right_cancel (by decide) hk
  exact absurd hleast (by decide)

end Backoff

end CatalogClient
