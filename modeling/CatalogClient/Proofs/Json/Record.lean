import CatalogClient.Proofs.Json.Reader
import CatalogClient.Proofs.Keyed
/-!
Which documents are records, stated without the reader. The fields of a record are the members of an object, among
which no known name stands twice, or the items of an array, in the order of the names.
-/

namespace CatalogClient.Json

namespace Document

/-- The first member of the name. -/
def firstMember? (name : String) (ms : List (Option String × Document)) : Option Document :=
  (ms.find? (·.1 = some name)).map (·.2)

/-- The members that have one of the names, in their order. -/
def knownMembers (names : List String) (ms : List (Option String × Document)) : List (String × Document) :=
  ms.filterMap fun m => m.1.bind fun k => if k ∈ names then some (k, m.2) else none

/-- The reader of a record with fields of these names can tell the fields apart. -/
def IsRecord (names : List String) : Document → Prop
  | .array xs => xs.length ≤ names.length
  | .object ms => (∀ m ∈ ms, m.1 ≠ none) ∧ ((knownMembers names ms).map (·.1)).Nodup
  | _ => False

def field? (names : List String) (name : String) : Document → Option Document
  | .array xs => ((names.zip xs).find? (·.1 = name)).map (·.2)
  | .object ms => firstMember? name ms
  | _ => none

/-- A field that is left out, or null, or a text. -/
def AtMostText (o : Option Document) : Prop := ∀ d ∈ o, d = .null ∨ ∃ s, d = .string (some s)

def textOf? : Option Document → Option String
  | some (.string s) => s
  | _ => none

/-- A field that is left out, or null, or a whole number below the bound, without a sign, a point or an exponent. -/
def AtMostNumber (bound : Nat) (o : Option Document) : Prop :=
  ∀ d ∈ o, d = .null ∨ ∃ l : Literal, d = .number l ∧ l.negative = false ∧ l.fraction = none ∧
    l.exponent = none ∧ Decimal.value l.whole < bound

end Document

namespace Decode

open Document

variable {names : List String} {depth : Nat} {name : String} {fs : Fields} {d : Document} {o : Option Document}

section Members

variable {ms : List (Option String × Document)} {acc : List (String × Document)}

/-- What the reader of fields does with one member. -/
def takeField (names : List String) (acc : List (String × Document)) (m : Option String × Document) :
    Option (List (String × Document)) := do
  let k ← m.1
  if k ∈ names then
    if acc.any (·.1 = k) then none else some ((k, m.2) :: acc)
  else some acc

theorem fields_object (ms : List (Option String × Document)) :
    fields names (depth + 1) (.object ms) = (ms.foldlM (takeField names) []).map (⟨·, false, depth⟩) := by
  rw [Option.map_eq_bind]
  rfl

theorem foldlM_takeField_eq_some (hacc : (acc.map (·.1)).Nodup) {kept : List (String × Document)} :
    ms.foldlM (takeField names) acc = some kept ↔
      (∀ m ∈ ms, m.1 ≠ none) ∧ (((knownMembers names ms).reverse ++ acc).map (·.1)).Nodup ∧
        kept = (knownMembers names ms).reverse ++ acc := by
  induction ms generalizing acc with
  | nil => simp [knownMembers, hacc, eq_comm]
  | cons m ms ih =>
    obtain ⟨key, d⟩ := m
    rw [List.foldlM_cons]
    cases key with
    | none => simp [takeField]
    | some k =>
      by_cases hk : k ∈ names
      · have hknown : knownMembers names ((some k, d) :: ms) = (k, d) :: knownMembers names ms := by
          simp [knownMembers, hk]
        rw [hknown, List.reverse_cons, List.append_assoc, List.singleton_append]
        by_cases hseen : acc.any (·.1 = k)
        · -- The name stands in what was gathered before, and so twice in the object.
          have htwice : ¬(((knownMembers names ms).reverse ++ (k, d) :: acc).map (·.1)).Nodup := by
            have hmem : k ∈ acc.map (·.1) := by simpa using hseen
            rw [List.map_append, List.map_cons, List.nodup_middle, List.nodup_cons]
            exact fun h => h.1 (List.mem_append_right _ hmem)
          have hstep : takeField names acc (some k, d) = none := by simp [takeField, hk, hseen]
          rw [hstep]
          exact iff_of_false nofun fun h => htwice h.2.1
        · have hnew : k ∉ acc.map (·.1) := by simpa using hseen
          have hstep : takeField names acc (some k, d) = some ((k, d) :: acc) := by simp [takeField, hk, hseen]
          have hnodup : (((k, d) :: acc).map (·.1)).Nodup := List.nodup_cons.mpr ⟨hnew, hacc⟩
          rw [hstep, Option.bind_eq_bind, Option.bind_some, ih hnodup]
          simp
      · have hknown : knownMembers names ((some k, d) :: ms) = knownMembers names ms := by
          simp [knownMembers, hk]
        have hstep : takeField names acc (some k, d) = some acc := by simp [takeField, hk]
        rw [hknown, hstep, Option.bind_eq_bind, Option.bind_some, ih hacc]
        simp

theorem foldlM_takeField_nil {kept : List (String × Document)} : ms.foldlM (takeField names) [] = some kept ↔
    IsRecord names (.object ms) ∧ kept = (knownMembers names ms).reverse := by
  have hempty : (([] : List (String × Document)).map (·.1)).Nodup := List.nodup_nil
  rw [foldlM_takeField_eq_some hempty, List.append_nil, List.map_reverse, List.nodup_reverse, ← and_assoc]
  rfl

theorem find?_knownMembers (hname : name ∈ names) :
    ((knownMembers names ms).find? (·.1 = name)).map (·.2) = firstMember? name ms := by
  induction ms with
  | nil => rfl
  | cons m ms ih =>
    obtain ⟨key, d⟩ := m
    cases key with
    | none => simpa [knownMembers, firstMember?] using ih
    | some k =>
      by_cases hk : k = name
      · simp [knownMembers, firstMember?, hk, hname]
      · by_cases hknown : k ∈ names <;> simpa [knownMembers, firstMember?, hk, hknown] using ih

theorem positional_object (h : fields names (depth + 1) (.object ms) = some fs) : fs.positional = false := by
  rw [fields_object] at h
  obtain ⟨_, -, rfl⟩ := Option.map_eq_some_iff.mp h
  rfl

end Members

theorem fields_of_isRecord (h : d.IsRecord names) (depth : Nat) :
    ∃ fs, fields names (depth + 1) d = some fs ∧ fs.depth = depth ∧
    ∀ name ∈ names, fs.find? name = d.field? names name := by
  cases d with
  | array xs => exact ⟨⟨names.zip xs, true, depth⟩, if_neg (Nat.not_lt.mpr h), rfl, fun name _ => rfl⟩
  | object ms =>
    have hreverse : ((knownMembers names ms).reverse.map (·.1)).Nodup := by
      rw [List.map_reverse, List.nodup_reverse]
      exact h.2
    refine ⟨⟨(knownMembers names ms).reverse, false, depth⟩, ?_, rfl, fun name hname => ?_⟩
    · rw [fields_object, foldlM_takeField_nil.mpr ⟨h, rfl⟩]
      rfl
    · rw [Fields.find?, find?_of_same_members hreverse h.2 fun m _ => List.mem_reverse]
      exact find?_knownMembers hname
  | _ => exact h.elim

theorem isRecord_of_fields (h : fields names depth d = some fs) : d.IsRecord names := by
  rw [depth_of_fields h] at h
  cases d with
  | array xs =>
    by_contra hlong
    rw [fields, if_pos (Nat.lt_of_not_le hlong)] at h
    cases h
  | object ms =>
    rw [fields_object] at h
    obtain ⟨kept, hkept, -⟩ := Option.map_eq_some_iff.mp h
    exact (foldlM_takeField_nil.mp hkept).1
  | _ => cases h

theorem of_fields (h : fields names depth d = some fs) :
    d.IsRecord names ∧ ∀ name ∈ names, fs.find? name = d.field? names name := by
  have hrecord := isRecord_of_fields h
  obtain ⟨fs', hfs, -, hfind⟩ := fields_of_isRecord hrecord fs.depth
  rw [depth_of_fields h, hfs] at h
  cases h
  exact ⟨hrecord, hfind⟩

theorem defaulted_text_eq_some {t : Option String} (h : fs.find? name = o) :
    fs.defaulted name (option string) none = some t ↔ AtMostText o ∧ t = textOf? o := by
  rw [Fields.defaulted, h]
  cases o with
  | none => simp [AtMostText, textOf?, eq_comm]
  | some d =>
    cases d with
    | string s => cases s <;> simp [AtMostText, textOf?, option, string, eq_comm]
    | _ => simp [AtMostText, textOf?, option, string, eq_comm]

theorem double_of_doubleOf {l : Literal} {n : Number} (h : Number.doubleOf l = some n) : ∃ x, n = .double x := by
  have hsigned : ∀ {negative x}, some (Number.signed negative x) = some n → ∃ x, n = .double x := fun h =>
    ⟨_, (Option.some.inj h).symm⟩
  have hscaled : ∀ {negative} {o : Option Decimal.Binary64}, o.map (Number.signed negative) = some n →
      ∃ x, n = .double x := fun h => by
    obtain ⟨x, -, hx⟩ := Option.map_eq_some_iff.mp h
    exact hsigned (congrArg some hx)
  obtain ⟨negative, whole, fraction, exponent⟩ := l
  cases exponent with
  | none => exact hscaled h
  | some e =>
    simp only [Number.doubleOf] at h
    split_ifs at h
    · exact hsigned h
    · exact hscaled h
    · exact hscaled h

theorem natBelow_double {bound : Nat} {l : Literal} (h : Number.ofLiteral? l = Number.doubleOf l) :
    natBelow bound depth (.number l) = none := by
  simp only [natBelow, int, h]
  cases hd : Number.doubleOf l with
  | none => rfl
  | some n =>
    obtain ⟨x, rfl⟩ := double_of_doubleOf hd
    rfl

theorem inRange_of_lt {n : Nat} (h : n < Width.beyond64) : InRange n := by
  simp only [Width.beyond64] at h
  exact ⟨by omega, by omega⟩

theorem ofLiteral?_whole {whole : List Char} (h : InRange (Decimal.value whole)) :
    Number.ofLiteral? ⟨false, whole, none, none⟩ = some (.integer (Decimal.value whole) h) := by
  simp [Number.ofLiteral?, h]

/-- A whole number with a sign is below zero, or else it is read as a double. -/
theorem natBelow_signed (bound : Nat) (whole : List Char) :
    natBelow bound depth (.number ⟨true, whole, none, none⟩) = none := by
  by_cases hzero : Decimal.value whole = 0
  · simp [natBelow, int, Number.ofLiteral?, hzero]
  · by_cases hrange : InRange (-(Decimal.value whole : Int))
    · simp [natBelow, int, Number.ofLiteral?, hzero, hrange]
    · exact natBelow_double (by simp [Number.ofLiteral?, hzero, hrange])

theorem natBelow_whole {bound : Nat} (hbound : bound ≤ Width.beyond64) (whole : List Char) :
    natBelow bound depth (.number ⟨false, whole, none, none⟩) =
      if Decimal.value whole < bound then some (Decimal.value whole) else none := by
  by_cases hrange : InRange (Decimal.value whole)
  · rw [natBelow, int, ofLiteral?_whole hrange]
    by_cases h : Decimal.value whole < bound
    · have hint : (0 : Int) ≤ Decimal.value whole ∧ (Decimal.value whole : Int) < bound := by omega
      rw [if_pos h]
      simp only [if_pos hint, Option.map_some, Int.toNat_natCast]
    · have hint : ¬((0 : Int) ≤ Decimal.value whole ∧ (Decimal.value whole : Int) < bound) := by omega
      rw [if_neg h]
      simp only [if_neg hint, Option.map_none]
  · have hlarge : ¬Decimal.value whole < bound := fun hless => hrange (inRange_of_lt (hless.trans_le hbound))
    rw [natBelow_double (by simp [Number.ofLiteral?, hrange]), if_neg hlarge]

theorem natBelow_number_isSome {bound : Nat} (hbound : bound ≤ Width.beyond64) (l : Literal) :
    (natBelow bound depth (.number l)).isSome ↔ l.negative = false ∧ l.fraction = none ∧ l.exponent = none ∧
      Decimal.value l.whole < bound := by
  obtain ⟨negative, whole, fraction, exponent⟩ := l
  by_cases hplain : fraction.isNone ∧ exponent.isNone
  · obtain ⟨hfraction, hexponent⟩ := hplain
    rw [Option.isNone_iff_eq_none] at hfraction hexponent
    subst hfraction hexponent
    cases negative with
    | true => simp [natBelow_signed]
    | false => simp [natBelow_whole hbound]
  · have hdouble : Number.ofLiteral? ⟨negative, whole, fraction, exponent⟩ =
        Number.doubleOf ⟨negative, whole, fraction, exponent⟩ := if_neg hplain
    rw [natBelow_double hdouble]
    refine iff_of_false nofun fun h => hplain ⟨?_, ?_⟩
    · exact Option.isNone_iff_eq_none.mpr h.2.1
    · exact Option.isNone_iff_eq_none.mpr h.2.2.1

theorem defaulted_number_isSome {bound : Nat} (hbound : bound ≤ Width.beyond64) (h : fs.find? name = o) :
    (fs.defaulted name (option (natBelow bound)) none).isSome ↔ AtMostNumber bound o := by
  rw [Fields.defaulted, h]
  cases o with
  | none => simp [AtMostNumber]
  | some d =>
    cases d with
    | number l => simpa [AtMostNumber, option] using natBelow_number_isSome hbound l
    | _ => simp [AtMostNumber, option, natBelow, int]

end Decode

end CatalogClient.Json
