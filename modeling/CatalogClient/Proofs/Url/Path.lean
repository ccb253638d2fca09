import CatalogClient.Url.Reader
import CatalogClient.Proofs.Url.Escape
/-!
Paths: what dot segments do to the segments around them, and that the segments of a path that was read
are read back one by one.
-/

namespace CatalogClient.Url

variable {s : List Char} {done ss front back : List (List Char)} {c : Char}

/-- The segments that are carried out and not kept. -/
def isDot (s : List Char) : Bool := isSingleDot s || isDoubleDot s

theorem not_isDoubleDot_of_isSingleDot (h : isSingleDot s = true) : isDoubleDot s = false := by
  simp only [isSingleDot, isDoubleDot, decide_eq_true_eq] at h ⊢
  simp only [List.mem_cons, List.not_mem_nil, or_false] at h
  rcases h with h | h <;> rw [h] <;> decide

theorem walk_single (h : isSingleDot s = true) (last : Bool) :
    walk false done s last = if last then [] :: done else done := by
  unfold walk
  rw [if_neg (by simp [not_isDoubleDot_of_isSingleDot h]), if_pos h]

theorem walk_double (h : isDoubleDot s = true) (last : Bool) :
    walk false done s last = if last then [] :: done.drop 1 else done.drop 1 := by
  unfold walk
  rw [if_pos h]
  cases done with
  | nil => rfl
  | cons d done => cases done <;> rfl

theorem walk_still (h : isDot s = false) (last : Bool) : walk false done s last = s :: done := by
  rw [isDot, Bool.or_eq_false_iff] at h
  unfold walk
  rw [if_neg (by simp [h.2]), if_neg (by simp [h.1])]
  rfl

theorem walkAll_append (hfront : ∀ s ∈ front, isDot s = false) (hback : back ≠ []) :
    walkAll false done (front ++ back) = walkAll false (front.reverse ++ done) back := by
  induction front generalizing done with
  | nil => rfl
  | cons s front ih =>
    rw [List.forall_mem_cons] at hfront
    rw [List.cons_append, walkAll.eq_3 _ _ _ _ fun h => hback (List.append_eq_nil_iff.mp h).2,
      walk_still hfront.1, ih hfront.2, List.reverse_cons, List.append_assoc]
    rfl

theorem walkAll_still (h : ∀ s ∈ ss, isDot s = false) : walkAll false done ss = ss.reverse ++ done := by
  rcases List.eq_nil_or_concat ss with rfl | ⟨front, last, rfl⟩
  · rfl
  · rw [List.concat_eq_append] at h ⊢
    rw [walkAll_append (fun s hs => h s (List.mem_append_left _ hs)) (List.cons_ne_nil _ _), walkAll,
      walk_still (h last (by simp)), List.reverse_append]
    rfl

theorem walk_ne_nil (file : Bool) : walk file done s true ≠ [] := by
  unfold walk
  repeat' split
  all_goals simp_all

theorem walkAll_ne_nil (file : Bool) (h : ss ≠ []) : walkAll file done ss ≠ [] := by
  induction ss generalizing done with
  | nil => exact absurd rfl h
  | cons s ss ih =>
    cases ss with
    | nil => exact walk_ne_nil file
    | cons t ss => exact ih (List.cons_ne_nil t ss)

variable {p : List Char → Prop}

theorem walk_forall (hnil : p []) (hdone : ∀ d ∈ done, p d) (hs : isDot s = false → p s) (last : Bool) :
    ∀ d ∈ walk false done s last, p d := by
  by_cases hdot : isDot s = false
  · rw [walk_still hdot]
    exact List.forall_mem_cons.mpr ⟨hs hdot, hdone⟩
  · have hdrop : ∀ d ∈ done.drop 1, p d := fun d hd => hdone d (List.mem_of_mem_drop hd)
    rw [Bool.not_eq_false, isDot, Bool.or_eq_true] at hdot
    rcases hdot with hdot | hdot
    · rw [walk_single hdot]
      split
      · exact List.forall_mem_cons.mpr ⟨hnil, hdone⟩
      · exact hdone
    · rw [walk_double hdot]
      split
      · exact List.forall_mem_cons.mpr ⟨hnil, hdrop⟩
      · exact hdrop

/-- Every segment that is left was written, and is no dot segment, or is the empty one behind a last
slash. -/
theorem walkAll_forall (hnil : p []) (hdone : ∀ d ∈ done, p d) (hss : ∀ s ∈ ss, isDot s = false → p s) :
    ∀ d ∈ walkAll false done ss, p d := by
  induction ss generalizing done with
  | nil => exact hdone
  | cons s ss ih =>
    rw [List.forall_mem_cons] at hss
    cases ss with
    | nil => exact walk_forall hnil hdone hss.1 true
    | cons t ss => exact ih (walk_forall hnil hdone hss.1 false) hss.2

theorem length_walk_dot (h : isDot s = true) : (walk false done s false).length ≤ done.length := by
  rw [isDot, Bool.or_eq_true] at h
  rcases h with h | h
  · rw [walk_single h]
    exact Nat.le_refl _
  · rw [walk_double h]
    simp

theorem length_walk (last : Bool) : (walk false done s last).length ≤ done.length + 1 := by
  cases hs : isDot s with
  | false =>
    rw [walk_still hs]
    exact Nat.le_refl _
  | true =>
    rw [isDot, Bool.or_eq_true] at hs
    rcases hs with hs | hs
    · rw [walk_single hs]
      cases last <;> simp
    · rw [walk_double hs]
      have hdrop : (done.drop 1).length ≤ done.length := by simp
      cases last with
      | true => exact Nat.succ_le_succ hdrop
      | false => exact Nat.le_succ_of_le hdrop

theorem length_walkAll : (walkAll false done ss).length ≤ done.length + ss.length := by
  induction ss generalizing done with
  | nil => exact Nat.le_refl _
  | cons s ss ih =>
    cases ss with
    | nil => exact length_walk true
    | cons t ss =>
      have hwalk : (walk false done s false).length ≤ done.length + 1 := length_walk false
      have hrest : (walkAll false (walk false done s false) (t :: ss)).length ≤
          (walk false done s false).length + (t :: ss).length := ih
      rw [walkAll.eq_3 _ _ _ _ (List.cons_ne_nil t ss)]
      simp only [List.length_cons] at hrest ⊢
      omega

/-- Dot segments leave fewer segments than were written, or an empty one in the place of the last. -/
theorem still_of_length (hlength : (walkAll false done ss).length = done.length + ss.length) :
    (∀ s ∈ ss, isDot s = false) ∨ ∃ last, ss.getLast? = some last ∧ isDot last = true ∧
      (walkAll false done ss).head? = some [] := by
  induction ss generalizing done with
  | nil => exact .inl fun _ hs => absurd hs List.not_mem_nil
  | cons s ss ih =>
    cases ss with
    | nil =>
      cases hs : isDot s with
      | false => exact .inl fun t ht => List.mem_singleton.mp ht ▸ hs
      | true =>
        refine .inr ⟨s, rfl, hs, ?_⟩
        rw [isDot, Bool.or_eq_true] at hs
        rcases hs with hs | hs
        · rw [walkAll, walk_single hs]
          rfl
        · rw [walkAll, walk_double hs]
          rfl
    | cons t ss =>
      rw [walkAll.eq_3 _ _ _ _ (List.cons_ne_nil t ss)] at hlength ⊢
      have hrest : (walkAll false (walk false done s false) (t :: ss)).length ≤
          (walk false done s false).length + (t :: ss).length := length_walkAll
      cases hs : isDot s with
      | true =>
        have hdot : (walk false done s false).length ≤ done.length := length_walk_dot hs
        simp only [List.length_cons] at hlength hrest
        omega
      | false =>
        rw [walk_still hs] at hlength ⊢
        have hlength' : (walkAll false (s :: done) (t :: ss)).length =
            (s :: done).length + (t :: ss).length := by
          simp only [List.length_cons] at hlength ⊢
          omega
        refine (ih hlength').imp (fun hstill => List.forall_mem_cons.mpr ⟨hs, hstill⟩) ?_
        rintro ⟨last, hlast, hdot, hhead⟩
        exact ⟨last, by rw [List.getLast?_cons_cons, hlast], hdot, hhead⟩

/-- The segments of a path that was read. -/
structure Segment (s : List Char) : Prop where
  kept : ∀ c ∈ s, keptInPath c = true ∧ isSlash true c = false
  still : isDot s = false

theorem segment_nil : Segment [] := ⟨fun _ hc => absurd hc List.not_mem_nil, rfl⟩

theorem unified_of_notSlash {cs : List Char} :
    ∀ c ∈ cs.map (fun c => if isSlash true c then '/' else c), c = '/' ∨ isSlash true c = false := by
  intro c hc
  obtain ⟨d, -, rfl⟩ := List.mem_map.mp hc
  by_cases hd : isSlash true d = true
  · rw [if_pos hd]
    exact .inl rfl
  · rw [if_neg hd]
    exact .inr (Bool.eq_false_iff.mpr hd)

theorem notSlash_of_inEscape (h : inEscape c = true) : isSlash true c = false :=
  forall_ascii (q := fun c => inEscape c = true → isSlash true c = false) (by decide) (inEscape_lt h) h

theorem readSegments_segments (cs : List Char) :
    ∃ parts : List (List Char), readSegments true false cs = .segments (parts.map String.ofList) ∧
      parts ≠ [] ∧ ∀ s ∈ parts, Segment s := by
  refine ⟨_, rfl, ?_, ?_⟩
  · simpa using walkAll_ne_nil false (by simpa using Text.splitList_ne_nil '/' _)
  · intro s hs
    refine walkAll_forall segment_nil (fun _ h => absurd h List.not_mem_nil) ?_ s (List.mem_reverse.mp hs)
    intro t ht hdot
    obtain ⟨piece, hpiece, rfl⟩ := List.mem_map.mp ht
    refine ⟨fun c hc => ?_, hdot⟩
    rcases mem_escape hc with ⟨hmem, hkept⟩ | hescape
    · refine ⟨hkept, (unified_of_notSlash c (Text.mem_of_mem_splitList hpiece hmem)).resolve_left ?_⟩
      rintro rfl
      exact Text.notMem_of_mem_splitList hpiece hmem
    · exact ⟨(kept_of_inEscape hescape).2.1, notSlash_of_inEscape hescape⟩

/-- The segments of a written path as they are walked. -/
theorem readSegments_written (hne : ss ≠ [])
    (h : ∀ s ∈ ss, ∀ c ∈ s, keptInPath c = true ∧ isSlash true c = false) :
    readSegments true false (['/'].intercalate ss) =
      .segments ((walkAll false [] ss).reverse.map String.ofList) := by
  have hslash : ∀ c ∈ ['/'].intercalate ss, (if isSlash true c then '/' else c) = c := by
    intro c hc
    rcases Text.mem_intercalate hc with rfl | ⟨s, hs, hmem⟩
    · rfl
    · rw [(h s hs c hmem).2]
      rfl
  have hkept : ss.map (escape keptInPath) = ss :=
    (List.map_congr_left fun s hs => escape_of_kept fun c hc => (h s hs c hc).1).trans (List.map_id _)
  have hsep : ∀ s ∈ ss, '/' ∉ s := fun s hs hc => by cases (h s hs _ hc).2
  simp only [readSegments, List.map_congr_left hslash, List.map_id', Text.splitList_intercalate hne hsep, hkept,
    Bool.false_eq_true, if_false]

theorem flatMap_slash (hne : ss ≠ []) : ss.flatMap ('/' :: ·) = '/' :: ['/'].intercalate ss := by
  induction ss with
  | nil => exact absurd rfl hne
  | cons s ss ih =>
    cases ss with
    | nil => simp
    | cons t ss => rw [List.flatMap_cons, ih (List.cons_ne_nil t ss), List.intercalate_cons_cons]; simp

theorem lt_of_toLower (h : c.toLower.toNat < 128) : c.toNat < 128 := by
  unfold Char.toLower at h
  split at h
  · rename_i hupper
    exact Nat.lt_of_le_of_lt (UInt32.le_iff_toNat_le.mp hupper.2) (by decide)
  · exact h

theorem of_toLower (c : Char) :
    (c.toLower = '.' → c = '.') ∧ (c.toLower = '%' → c = '%') ∧ (c.toLower = '2' → c = '2') ∧
    (c.toLower = 'e' → c = 'e' ∨ c = 'E') := by
  have hall : ∀ d, d = '.' ∨ d = '%' ∨ d = '2' ∨ d = 'e' → c.toLower = d →
      c = d ∨ (d = 'e' ∧ c = 'E') := by
    intro d hd heq
    have hlt : c.toNat < 128 := by
      refine lt_of_toLower ?_
      rw [heq]
      rcases hd with rfl | rfl | rfl | rfl <;> decide
    refine forall_ascii (q := fun c => (d = '.' ∨ d = '%' ∨ d = '2' ∨ d = 'e') → c.toLower = d →
      c = d ∨ (d = 'e' ∧ c = 'E')) ?_ hlt hd heq
    intro n hd
    rcases hd with rfl | rfl | rfl | rfl <;> revert n <;> decide
  refine ⟨fun h => ?_, fun h => ?_, fun h => ?_, fun h => ?_⟩
  · simpa using hall '.' (by decide) h
  · simpa using hall '%' (by decide) h
  · simpa using hall '2' (by decide) h
  · simpa using hall 'e' (by decide) h

/-- However a dot segment is spelled, it stands for dots. -/
theorem unescape_dot {b : Char} (hb : b = 'e' ∨ b = 'E') (cs : List Char) :
    unescape ('.' :: cs) = 0x2E :: unescape cs ∧ unescape ('%' :: '2' :: b :: cs) = 0x2E :: unescape cs := by
  refine ⟨unescape_cons (by decide) cs, ?_⟩
  rcases hb with rfl | rfl <;> rw [unescape] <;> rfl

theorem spelled_dot {t : List Char}
    (h : s.map Char.toLower = '.' :: t ∨ s.map Char.toLower = '%' :: '2' :: 'e' :: t) :
    ∃ s', s'.map Char.toLower = t ∧ unescape s = 0x2E :: unescape s' := by
  rcases h with h | h
  · obtain ⟨a, s', rfl, ha, hs⟩ := List.map_eq_cons_iff.mp h
    cases (of_toLower a).1 ha
    exact ⟨s', hs, (unescape_dot (.inl rfl) s').1⟩
  · obtain ⟨a, s₁, rfl, ha, h⟩ := List.map_eq_cons_iff.mp h
    obtain ⟨b, s₂, rfl, hb, h⟩ := List.map_eq_cons_iff.mp h
    obtain ⟨d, s', rfl, hd, hs⟩ := List.map_eq_cons_iff.mp h
    cases (of_toLower a).2.1 ha
    cases (of_toLower b).2.2.1 hb
    exact ⟨s', hs, (unescape_dot ((of_toLower d).2.2.2 hd) s').2⟩

theorem unescape_of_isSingleDot (h : isSingleDot s = true) : unescape s = [0x2E] := by
  have hspelled : s.map Char.toLower = ['.'] ∨ s.map Char.toLower = ['%', '2', 'e'] := by
    simpa [isSingleDot, String.ext_iff] using h
  obtain ⟨s', hs, heq⟩ := spelled_dot hspelled
  rw [heq, List.map_eq_nil_iff.mp hs]
  rfl

theorem unescape_of_isDoubleDot (h : isDoubleDot s = true) : unescape s = [0x2E, 0x2E] := by
  have hspelled : (s.map Char.toLower = '.' :: ['.'] ∨ s.map Char.toLower = '.' :: ['%', '2', 'e']) ∨
      s.map Char.toLower = '%' :: '2' :: 'e' :: ['.'] ∨
      s.map Char.toLower = '%' :: '2' :: 'e' :: ['%', '2', 'e'] := by
    simpa [isDoubleDot, String.ext_iff, or_assoc] using h
  have hfirst : ∃ s', (s'.map Char.toLower = ['.'] ∨ s'.map Char.toLower = ['%', '2', 'e']) ∧
      unescape s = 0x2E :: unescape s' := by
    rcases hspelled with (h | h) | (h | h)
    · exact (spelled_dot (.inl h)).imp fun _ => And.imp_left .inl
    · exact (spelled_dot (.inl h)).imp fun _ => And.imp_left .inr
    · exact (spelled_dot (.inr h)).imp fun _ => And.imp_left .inl
    · exact (spelled_dot (.inr h)).imp fun _ => And.imp_left .inr
  obtain ⟨s', hs', heq⟩ := hfirst
  rw [heq, unescape_of_isSingleDot (by simpa [isSingleDot, String.ext_iff] using hs')]

theorem eq_of_unescape {cs ds : List Char}
    (h : unescape (escape isUnreserved cs) = ds.flatMap String.utf8EncodeChar) :
    cs = ds := by
  rw [unescape_escape (by decide)] at h
  have hscan := congrArg (Text.Utf8.scan none) h
  rw [Text.Utf8.scan_encode, Text.Utf8.scan_encode] at hscan
  exact (List.map_inj_right fun _ _ => Option.some.inj).mp hscan

/-- Escaping makes a dot segment of nothing but one or two dots. -/
theorem isDot_escape (cs : List Char) :
    (isSingleDot (escape isUnreserved cs) = true ↔ cs = ['.']) ∧
      (isDoubleDot (escape isUnreserved cs) = true ↔ cs = ['.', '.']) := by
  refine ⟨⟨fun h => eq_of_unescape ((unescape_of_isSingleDot h).trans rfl), ?_⟩,
    ⟨fun h => eq_of_unescape ((unescape_of_isDoubleDot h).trans rfl), ?_⟩⟩ <;> (rintro rfl; decide)

end CatalogClient.Url
