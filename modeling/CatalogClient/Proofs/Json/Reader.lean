import CatalogClient.Json.Decode
import CatalogClient.Proofs.Json.RoundTrip
/-!
What readers make of documents. In a value that is read the keys of every object ascend, and no more arrays and
objects enclose one another than the reader was allowed to enter.
-/

namespace CatalogClient.Json

namespace Document

mutual

theorem inOrder_toJson? : ∀ (depth : Nat) (d : Document) {j : Json}, d.toJson? depth = some j →
    j.InOrder ∧ j.nesting ≤ depth
  | depth, .null, j, h => by
    cases h
    exact ⟨.null, Nat.zero_le depth⟩
  | depth, .bool b, j, h => by
    cases h
    exact ⟨.bool b, Nat.zero_le depth⟩
  | depth, .number l, j, h => by
    obtain ⟨n, -, rfl⟩ := Option.map_eq_some_iff.mp h
    exact ⟨.number n, Nat.zero_le depth⟩
  | depth, .string s, j, h => by
    obtain ⟨t, -, rfl⟩ := Option.map_eq_some_iff.mp h
    exact ⟨.string t, Nat.zero_le depth⟩
  | 0, .array _, _, h => by cases h
  | 0, .object _, _, h => by cases h
  | depth + 1, .array xs, j, h => by
    obtain ⟨js, hjs, rfl⟩ := Option.map_eq_some_iff.mp h
    have hitems := inOrder_toItems? depth xs hjs
    exact ⟨.array fun x hx => (hitems x hx).1, Nat.succ_le_succ (nestingItems_le.mpr fun x hx => (hitems x hx).2)⟩
  | depth + 1, .object ms, j, h => by
    obtain ⟨ns, hns, rfl⟩ := Option.map_eq_some_iff.mp h
    have hmembers : ∀ m ∈ sortMembers ns, m.2.InOrder ∧ m.2.nesting ≤ depth := fun m hm =>
      inOrder_toMembers? depth ms hns m (mem_of_mem_sortMembers hm)
    exact ⟨.object (pairwise_sortMembers ns) fun m hm => (hmembers m hm).1,
      Nat.succ_le_succ (nestingMembers_le.mpr fun m hm => (hmembers m hm).2)⟩

theorem inOrder_toItems? : ∀ (depth : Nat) (xs : List Document) {js : List Json}, toItems? depth xs = some js →
    ∀ j ∈ js, j.InOrder ∧ j.nesting ≤ depth
  | depth, [], js, h => by
    cases h
    exact fun j hj => absurd hj List.not_mem_nil
  | depth, x :: xs, js, h => by
    obtain ⟨j, hj, h⟩ := Option.bind_eq_some_iff.mp h
    obtain ⟨rest, hrest, h⟩ := Option.bind_eq_some_iff.mp h
    cases h
    exact List.forall_mem_cons.mpr ⟨inOrder_toJson? depth x hj, inOrder_toItems? depth xs hrest⟩

theorem inOrder_toMembers? : ∀ (depth : Nat) (ms : List (Option String × Document)) {ns : List (String × Json)},
    toMembers? depth ms = some ns → ∀ n ∈ ns, n.2.InOrder ∧ n.2.nesting ≤ depth
  | depth, [], ns, h => by
    cases h
    exact fun n hn => absurd hn List.not_mem_nil
  | depth, (k, x) :: ms, ns, h => by
    obtain ⟨key, -, h⟩ := Option.bind_eq_some_iff.mp h
    obtain ⟨j, hj, h⟩ := Option.bind_eq_some_iff.mp h
    obtain ⟨rest, hrest, h⟩ := Option.bind_eq_some_iff.mp h
    cases h
    exact List.forall_mem_cons.mpr ⟨inOrder_toJson? depth x hj, inOrder_toMembers? depth ms hrest⟩

end

end Document

namespace Decode

variable {α : Type} {f : Decoder α} {names : List String} {depth : Nat} {d : Document} {a : α} {fs : Fields}
  {name : String}

/-- The value of a text of which no more than so many arrays and objects may be entered. -/
def textWithin? (f : Decoder α) (depth : Nat) (s : String) : Option α := do f depth (← Document.read? s)

theorem text?_eq (f : Decoder α) (s : String) : text? f s = textWithin? f Document.maxDepth s := rfl

theorem textWithin?_eq_some {s : String} :
    textWithin? f depth s = some a ↔ ∃ d, Document.read? s = some d ∧ f depth d = some a :=
  Option.bind_eq_some_iff

theorem depth_of_fields (h : fields names depth d = some fs) : depth = fs.depth + 1 := by
  unfold fields at h
  split at h
  · split at h
    · cases h
    · cases h
      rfl
  · obtain ⟨known, -, h⟩ := Option.bind_eq_some_iff.mp h
    cases h
    rfl
  · cases h

theorem required_eq_some : fs.required name f = some a ↔ ∃ d, fs.find? name = some d ∧ f fs.depth d = some a :=
  Option.bind_eq_some_iff

theorem default_or_read {default : α} (h : fs.defaulted name f default = some a) :
    a = default ∨ ∃ d, f fs.depth d = some a := by
  unfold Fields.defaulted at h
  split at h
  · exact .inr ⟨_, h⟩
  · exact .inl (Option.some.inj h).symm

theorem null_or_read {o : Option α} (h : option f depth d = some o) :
    o = none ∨ ∃ a, o = some a ∧ f depth d = some a := by
  unfold option at h
  split at h
  · exact .inl (Option.some.inj h).symm
  · obtain ⟨a, ha, rfl⟩ := Option.map_eq_some_iff.mp h
    exact .inr ⟨a, rfl, ha⟩

theorem lt_of_natBelow {n bound : Nat} (h : natBelow bound depth d = some n) : n < bound := by
  obtain ⟨i, hi, rfl⟩ := Option.map_eq_some_iff.mp h
  unfold int at hi
  split at hi
  · split at hi
    · split at hi
      · cases hi
        omega
      · cases hi
    · cases hi
  · cases hi

theorem lt_of_defaulted {o : Option Nat} {bound : Nat}
    (h : fs.defaulted name (option (natBelow bound)) none = some o) : ∀ n ∈ o, n < bound := by
  rintro n rfl
  obtain h | ⟨d, hd⟩ := default_or_read h
  · cases h
  · obtain h | ⟨m, hm, hread⟩ := null_or_read hd
    · cases h
    · cases hm
      exact lt_of_natBelow hread

theorem ascending_of_members {ms : List (String × α)} (h : members f depth d = some ms) :
    (ms.map (·.1)).Pairwise (· < ·) := by
  unfold members at h
  split at h
  · obtain ⟨pairs, -, h⟩ := Option.bind_eq_some_iff.mp h
    cases h
    exact members.pairwise_gather pairs
  · cases h

theorem mapM_of_list {as : List α} (h : list f depth d = some as) :
    ∃ n, ∃ xs : List Document, depth = n + 1 ∧ xs.mapM (f n) = some as := by
  unfold list at h
  split at h
  · exact ⟨_, _, rfl, h⟩
  · cases h

end Decode

end CatalogClient.Json
