import CatalogClient.Proofs.Bind
import CatalogClient.Proofs.Json.Record
/-!
The fields of a record, read from an object in which no key stands twice: each is what the object has under its
name, in whatever order the members stand. Optional fields, lists and sets of members are read back as well.
-/

namespace CatalogClient.Json

open Decode

variable {names : List String} {depth : Nat}

theorem knownMembers_document (names : List String) (ms : List (String × Json)) :
    Document.knownMembers names (documentMembers ms) =
      (ms.filter (·.1 ∈ names)).map fun m => (m.1, m.2.document) := by
  induction ms with
  | nil => rfl
  | cons m ms ih => by_cases hm : m.1 ∈ names <;> simpa [documentMembers, Document.knownMembers, hm] using ih

theorem isRecord_document (names : List String) {ms : List (String × Json)} (h : (ms.map (·.1)).Nodup) :
    (document (.object ms)).IsRecord names := by
  refine ⟨?_, ?_⟩
  · rw [documentMembers_eq_map]
    exact List.forall_mem_map.mpr fun m _ => nofun
  · rw [knownMembers_document, List.map_map]
    exact h.sublist (List.filter_sublist.map _)

theorem fields_document (names : List String) (depth : Nat) {ms : List (String × Json)} (h : (ms.map (·.1)).Nodup) :
    ∃ fs, fields names (depth + 1) (document (.object ms)) = some fs ∧ fs.positional = false ∧ fs.depth = depth ∧
      ∀ name ∈ names, fs.find? name = (member? name ms).map document := by
  obtain ⟨fs, hfs, hdepth, hfind⟩ := fields_of_isRecord (isRecord_document names h) depth
  refine ⟨fs, hfs, positional_object hfs, hdepth, fun name hname => (hfind name hname).trans ?_⟩
  rw [document, Document.field?, Document.firstMember?, documentMembers_eq_map, List.find?_map, Option.map_map,
    member?, Option.map_map]
  simp only [Function.comp_def, Option.some.injEq]

theorem member?_perm {ms ns : List (String × Json)} (h : ms.Perm ns) (hms : (ms.map (·.1)).Nodup) (key : String) :
    member? key ms = member? key ns := by
  rw [member?, member?, find?_of_same_members hms ((h.map _).nodup_iff.mp hms) fun m _ => h.mem_iff]

theorem natBelow_document {n bound : Nat} (hwidth : n < Width.beyond64) (hbound : n < bound) (depth : Nat) :
    natBelow bound depth (Json.ofNat n).document = some n := by
  obtain ⟨hrange, hn⟩ := ofNat_integer hwidth
  rw [hn, document, natBelow, int, ofLiteral?_ofInt hrange]
  simp [hbound]

variable {fs : Fields} {name : String}

theorem required_ofNat {n bound : Nat} (h : fs.find? name = some (Json.ofNat n).document) (hwidth : n < Width.beyond64)
    (hbound : n < bound) : fs.required name (natBelow bound) = some n := by
  rw [Fields.required, h, Option.bind_eq_bind, Option.bind_some]
  exact natBelow_document hwidth hbound fs.depth

theorem single_document {α : Type} {f : Decoder α} {v : Json} {a : α} (h : f depth v.document = some a) :
    (do (← fields [name] (depth + 1) (Json.object [(name, v)]).document).required name f) = some a := by
  have hnodup : ([(name, v)].map (·.1)).Nodup := List.nodup_singleton name
  obtain ⟨fs, hfs, -, hdepth, hfind⟩ := fields_document [name] depth hnodup
  have hfound : fs.find? name = some v.document := (hfind name List.mem_cons_self).trans (by simp)
  rw [hfs, Option.bind_eq_bind, Option.bind_some, Fields.required, hfound, hdepth]
  exact h

theorem defaulted_option {α : Type} {f : Decoder α} {g : α → Json} {o : Option α}
    (h : fs.find? name = (o.map g).map document)
    (hf : ∀ a ∈ o, f fs.depth (g a).document = some a ∧ (g a).document ≠ .null) :
    fs.defaulted name (option f) none = some o := by
  rw [Fields.defaulted, h]
  cases o with
  | none => rfl
  | some a =>
    obtain ⟨hread, hnull⟩ := hf a rfl
    change option f fs.depth (g a).document = _
    unfold option
    split
    · contradiction
    · rw [hread]
      rfl

theorem defaulted_string {o : Option String} (h : fs.find? name = (o.map Json.string).map document) :
    fs.defaulted name (option Decode.string) none = some o :=
  defaulted_option h fun _ _ => ⟨rfl, nofun⟩

theorem defaulted_ofNat {o : Option Nat} {bound : Nat} (h : fs.find? name = (o.map Json.ofNat).map document)
    (hwidth : ∀ n ∈ o, n < Width.beyond64) (hbound : ∀ n ∈ o, n < bound) :
    fs.defaulted name (option (natBelow bound)) none = some o := by
  refine defaulted_option h fun n hn => ⟨natBelow_document (hwidth n hn) (hbound n hn) fs.depth, ?_⟩
  rw [(ofNat_integer (hwidth n hn)).2]
  exact nofun

theorem members_document {α : Type} {f : Decoder α} {g : α → Json} {ms : List (String × α)}
    (h : (ms.map (·.1)).Pairwise (· < ·)) (hf : ∀ m ∈ ms, f depth (g m.2).document = some m.2) :
    members f (depth + 1) (Json.object (ms.map fun m => (m.1, g m.2))).document = some ms := by
  have hpairs : (ms.map fun m => (some m.1, (g m.2).document)).mapM
      (fun m : Option String × Document => do return (← m.1, ← f depth m.2)) = some ms :=
    (mapM_map_some fun m hm => by simp [hf m hm]).trans (congrArg some (List.map_id ms))
  rw [document, documentMembers_eq_map, List.map_map]
  exact Option.bind_eq_some_iff.mpr ⟨ms, hpairs, congrArg some (members.gather_ascending h)⟩

theorem list_document {α : Type} {f : Decoder α} {g : α → Json} {as : List α}
    (hf : ∀ a ∈ as, f depth (g a).document = some a) :
    list f (depth + 1) (Json.array (as.map g)).document = some as := by
  rw [document, documentItems_eq_map, List.map_map]
  exact (mapM_map_some hf).trans (congrArg some (List.map_id as))

end CatalogClient.Json
