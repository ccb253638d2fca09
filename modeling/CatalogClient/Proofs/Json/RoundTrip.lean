import CatalogClient.Json.Document
import CatalogClient.Json.Writer
import CatalogClient.Proofs.Decimal.Digits
import CatalogClient.Proofs.Json.Members
/-!
What is written is read back. Of a value without doubles the reader sees the document as it was written, with
the members of its objects in their order; as a value, objects are known by their keys.
-/

namespace CatalogClient

namespace Json

open Decimal (isDigit writeInt)

namespace Document

/-- What may stand behind a value inside of an array or an object, and at the end. -/
def Closed (rest : List Char) : Prop := ∀ c ∈ rest.head?, c ∈ [',', ']', '\x7d']

section Strings

def Piece.of (c : Char) : Piece :=
  if c.toNat < 0x20 ∧ c ∉ ['\x08', '\x0c', '\n', '\r', '\t'] then .unit c.toNat else .char c

theorem hexUnit?_control : ∀ n < 0x20,
    hexUnit? '0' '0' (Nat.digitChar (n / 16)) (Nat.digitChar (n % 16)) = some n := by decide

theorem readPieces_plain {c : Char} {cs : List Char} (hquote : c ≠ '"') (hslash : c ≠ '\\')
    (hcontrol : ¬ c.toNat < 0x20) :
    readPieces (c :: cs) = (readPieces cs).map fun p => (.char c :: p.1, p.2) := by
  rw [readPieces.eq_def]
  split
  case h_5 heq =>
    cases heq
    rw [if_neg (not_or.mpr ⟨hcontrol, hslash⟩)]
    cases readPieces cs <;> rfl
  all_goals simp_all

theorem readPieces_short {e c : Char} {cs : List Char} (hu : e ≠ 'u') (h : shortEscape? e = some c) :
    readPieces ('\\' :: e :: cs) = (readPieces cs).map fun p => (.char c :: p.1, p.2) := by
  rw [readPieces.eq_def]
  split
  case h_4 heq =>
    cases heq
    rw [h]
    cases readPieces cs <;> rfl
  case h_5 hno heq =>
    cases heq
    exact absurd rfl (hno e cs rfl)
  all_goals simp_all

theorem readPieces_control {c : Char} {cs : List Char} (h : c.toNat < 0x20) :
    readPieces ('\\' :: 'u' :: '0' :: '0' :: Nat.digitChar (c.toNat / 16) :: Nat.digitChar (c.toNat % 16) :: cs) =
      (readPieces cs).map fun p => (.unit c.toNat :: p.1, p.2) := by
  rw [readPieces, hexUnit?_control _ h]
  cases readPieces cs <;> rfl

theorem readPieces_escapeChar (c : Char) (cs : List Char) :
    readPieces (escapeChar c ++ cs) = (readPieces cs).map fun p => (.of c :: p.1, p.2) := by
  by_cases hshort : c ∈ ['"', '\\', '\x08', '\x0c', '\n', '\r', '\t']
  · simp only [List.mem_cons, List.not_mem_nil, or_false] at hshort
    obtain rfl | rfl | rfl | rfl | rfl | rfl | rfl := hshort <;>
      exact readPieces_short (by decide) rfl
  · simp only [List.mem_cons, List.not_mem_nil, or_false, not_or] at hshort
    obtain ⟨hquote, hslash, hb, hf, hn, hr, ht⟩ := hshort
    by_cases hcontrol : c.toNat < 0x20
    · simpa [escapeChar, Piece.of, *] using readPieces_control hcontrol
    · simpa [escapeChar, Piece.of, *] using readPieces_plain hquote hslash hcontrol

theorem readPieces_escape (cs rest : List Char) :
    readPieces (cs.flatMap escapeChar ++ '"' :: rest) = some (cs.map .of, rest) := by
  induction cs with
  | nil => simp [readPieces]
  | cons c cs ih => rw [List.flatMap_cons, List.append_assoc, readPieces_escapeChar, ih]; rfl

theorem joinPieces_of (cs : List Char) : joinPieces (cs.map .of) = some cs := by
  induction cs with
  | nil => simp [joinPieces]
  | cons c cs ih =>
    rw [List.map_cons, Piece.of]
    split
    · rename_i h
      have hhigh : isHighSurrogate c.toNat = false := by simp [isHighSurrogate]; omega
      have hlow : isLowSurrogate c.toNat = false := by simp [isLowSurrogate]; omega
      rw [joinPieces.eq_def]
      simp [hhigh, hlow, ih]
    · rw [joinPieces, ih]
      rfl

theorem readString_writeString (s : String) (rest : List Char) :
    readString (s.toList.flatMap escapeChar ++ '"' :: rest) = some (some s, rest) := by
  simp [readString, readPieces_escape, joinPieces_of]

end Strings

section Numbers

theorem spanDigits_append {ds rest : List Char} (hds : ∀ d ∈ ds, isDigit d) (hrest : Closed rest) :
    spanDigits (ds ++ rest) = (ds, rest) := by
  have hstop : rest.takeWhile isDigit = [] ∧ rest.dropWhile isDigit = rest := by
    cases rest with
    | nil => exact ⟨rfl, rfl⟩
    | cons c cs =>
      have hc : isDigit c = false := by
        have := hrest c rfl
        simp only [List.mem_cons, List.not_mem_nil, or_false] at this
        obtain rfl | rfl | rfl := this <;> rfl
      simp [hc]
  rw [spanDigits, List.takeWhile_append_of_pos hds, List.dropWhile_append_of_pos hds, hstop.1, hstop.2,
    List.append_nil]

theorem readWhole_write (n : Nat) {rest : List Char} (hrest : Closed rest) :
    readWhole (Decimal.write n ++ rest) = some (Decimal.write n, rest) := by
  rw [readWhole, spanDigits_append (fun _ => Decimal.isDigit_of_mem_write) hrest]
  split
  · rename_i h
    exact absurd (Prod.mk.inj h).1 (Decimal.write_ne_nil n)
  · rename_i h
    have hzero := (Prod.mk.inj h).1
    obtain rfl | hn := Nat.eq_zero_or_pos n
    · cases hzero
    · exact absurd (by rw [hzero]; rfl) (Decimal.head?_write hn)
  · rfl

theorem readFraction_closed {rest : List Char} (hrest : Closed rest) : readFraction rest = some (none, rest) := by
  rw [readFraction.eq_def]
  split
  · exact absurd (hrest '.' rfl) (by decide)
  · rfl

theorem readExponent_closed {rest : List Char} (hrest : Closed rest) : readExponent rest = some (none, rest) := by
  rw [readExponent.eq_def]
  split
  · exact absurd (hrest 'e' rfl) (by decide)
  · exact absurd (hrest 'E' rfl) (by decide)
  · rfl

end Numbers

end Document

def Literal.ofInt (n : Int) : Literal := ⟨n < 0, Decimal.write n.natAbs, none, none⟩

namespace Document

theorem readNumber_writeInt (n : Int) {rest : List Char} (hrest : Closed rest) :
    readNumber (writeInt n ++ rest) = some (.ofInt n, rest) := by
  cases n with
  | ofNat n =>
    have hminus : ∀ cs, Decimal.write n ++ rest ≠ '-' :: cs := by
      intro cs h
      cases hwrite : Decimal.write n with
      | nil => exact Decimal.write_ne_nil n hwrite
      | cons d ds =>
        rw [hwrite] at h
        have hdigit : isDigit d := Decimal.isDigit_of_mem_write (hwrite ▸ List.mem_cons_self)
        rw [(List.cons.inj h).1] at hdigit
        exact absurd hdigit (by decide)
    rw [writeInt, readNumber]
    · simp [readWhole_write n hrest, readFraction_closed hrest, readExponent_closed hrest, Literal.ofInt]
    · exact hminus
  | negSucc n =>
    simp [writeInt, readNumber, readWhole_write (n + 1) hrest, readFraction_closed hrest,
      readExponent_closed hrest, Literal.ofInt]

end Document

theorem ofLiteral?_ofInt {n : Int} (h : InRange n) : Number.ofLiteral? (.ofInt n) = some (.integer n h) := by
  have hvalue : (if n < 0 then -(n.natAbs : Int) else n.natAbs) = n := by omega
  have hzero : ¬ (n < 0 ∧ n = 0) := by omega
  simp only [Number.ofLiteral?, Literal.ofInt, Decimal.value_write, Option.isNone_none, and_self, if_true,
    decide_eq_true_iff, hvalue, hzero, if_false, dif_pos h]

/-- No number of the value is a double. -/
inductive Whole : Json → Prop
  | null : Whole .null
  | bool (b : Bool) : Whole (.bool b)
  | integer (n : Int) (h : InRange n) : Whole (.number (.integer n h))
  | string (s : String) : Whole (.string s)
  | array {xs : List Json} (h : ∀ x ∈ xs, Whole x) : Whole (.array xs)
  | object {ms : List (String × Json)} (h : ∀ m ∈ ms, Whole m.2) : Whole (.object ms)

theorem ofNat_integer {n : Nat} (h : n < Width.beyond64) : ∃ hrange, Json.ofNat n = .number (.integer n hrange) := by
  have hrange : InRange n := by
    simp only [InRange, Width.beyond64] at *
    omega
  exact ⟨hrange, congrArg Json.number (dif_pos hrange)⟩

theorem whole_ofNat {n : Nat} (h : n < Width.beyond64) : (Json.ofNat n).Whole := by
  obtain ⟨hrange, hn⟩ := ofNat_integer h
  exact hn ▸ .integer n hrange

mutual

/-- The document that a value without doubles is written as. -/
def document : Json → Document
  | .null => .null
  | .bool b => .bool b
  | .number (.integer n _) => .number (.ofInt n)
  | .number (.double _) => .null
  | .string s => .string (some s)
  | .array xs => .array (documentItems xs)
  | .object ms => .object (documentMembers ms)

def documentItems : List Json → List Document
  | [] => []
  | x :: xs => document x :: documentItems xs

def documentMembers : List (String × Json) → List (Option String × Document)
  | [] => []
  | (k, x) :: ms => (some k, document x) :: documentMembers ms

end

theorem writeInt_eq_cons (n : Int) : ∃ c cs, writeInt n = c :: cs ∧ (c = '-' ∨ isDigit c) := by
  cases n with
  | ofNat n =>
    obtain ⟨c, cs, h⟩ := List.exists_cons_of_ne_nil (Decimal.write_ne_nil n)
    exact ⟨c, cs, h, .inr (Decimal.isDigit_of_mem_write (h ▸ List.mem_cons_self))⟩
  | negSucc n => exact ⟨_, _, rfl, .inl rfl⟩

namespace Document

theorem skip_cons {c : Char} {cs : List Char} (h : isSpace c = false) : skip (c :: cs) = c :: cs := by
  simp [skip, h]

theorem numeral_head {c : Char} (hc : c = '-' ∨ isDigit c) :
    isSpace c = false ∧ c ∉ ['n', 't', 'f', '"', '[', '\x7b', ']'] := by
  obtain rfl | hdigit := hc
  · decide
  · have hne (d : Char) (hd : isDigit d = false) : c ≠ d := by
      rintro rfl
      simp [hdigit] at hd
    simp [isSpace, hne ' ' rfl, hne '\t' rfl, hne '\n' rfl, hne '\r' rfl, hne 'n' rfl, hne 't' rfl, hne 'f' rfl,
      hne '"' rfl, hne '[' rfl, hne '\x7b' rfl, hne ']' rfl]

theorem readValue_number {c : Char} {cs : List Char} {fuel : Nat} (hc : c = '-' ∨ isDigit c) :
    readValue (fuel + 1) (c :: cs) = (readNumber (c :: cs)).map fun p => (.number p.1, p.2) := by
  have hhead := numeral_head hc
  rw [readValue, skip_cons hhead.1]
  split <;> simp_all

theorem readValue_items {c : Char} {cs : List Char} {fuel : Nat} (hspace : isSpace c = false) (hc : c ≠ ']') :
    readValue (fuel + 1) ('[' :: c :: cs) = (readItems fuel (c :: cs)).map fun p => (.array p.1, p.2) := by
  rw [readValue, skip_cons (by decide)]
  simp only [skip_cons hspace]
  split
  · rename_i h
    exact absurd (List.cons.inj h).1 hc
  · rfl

theorem readValue_members {cs : List Char} {fuel : Nat} :
    readValue (fuel + 1) ('\x7b' :: '"' :: cs) = (readMembers fuel ('"' :: cs)).map fun p => (.object p.1, p.2) := by
  rw [readValue]
  rfl

/-- A value is read back where it stands, in a number of steps that its text bounds. -/
def Legible (j : Json) : Prop :=
  ∀ ⦃rest : List Char⦄ ⦃fuel : Nat⦄, Closed rest → 2 * (write j).length ≤ fuel →
    readValue fuel (write j ++ rest) = some (document j, rest)

theorem closed_cons {c : Char} (h : c ∈ [',', ']', '\x7d']) (cs : List Char) : Closed (c :: cs) := by
  rintro d ⟨⟩
  exact h

theorem readItems_writeItems {x : Json} {xs : List Json} (h : ∀ y ∈ x :: xs, Legible y) {rest : List Char}
    {fuel : Nat} (hfuel : 2 * (writeItems (x :: xs)).length ≤ fuel) :
    readItems fuel (writeItems (x :: xs) ++ rest) = some (documentItems (x :: xs), rest) := by
  induction xs generalizing x fuel with
  | nil =>
    simp only [writeItems, List.length_append, List.length_singleton] at hfuel
    obtain ⟨fuel, rfl⟩ : ∃ f, fuel = f + 1 := ⟨fuel - 1, by omega⟩
    have hx := h x List.mem_cons_self (closed_cons (c := ']') (by decide) rest) (show _ ≤ fuel by omega)
    simp [writeItems, readItems, hx, skip, isSpace, documentItems]
  | cons y ys ih =>
    simp only [writeItems, List.length_append, List.length_cons] at hfuel
    obtain ⟨fuel, rfl⟩ : ∃ f, fuel = f + 1 := ⟨fuel - 1, by omega⟩
    have hx := h x List.mem_cons_self (closed_cons (c := ',') (by decide) (writeItems (y :: ys) ++ rest))
      (show _ ≤ fuel by omega)
    have hxs := ih (fun z hz => h z (List.mem_cons_of_mem _ hz)) (show _ ≤ fuel by omega)
    rw [documentItems, writeItems]
    · simp [readItems, hx, hxs, skip, isSpace]
    · simp

theorem writeString_append (s : String) (rest : List Char) :
    writeString s ++ rest = '"' :: (s.toList.flatMap escapeChar ++ '"' :: rest) := by
  simp [writeString]

theorem readMembers_writeMembers {m : String × Json} {ms : List (String × Json)}
    (h : ∀ n ∈ m :: ms, Legible n.2) {rest : List Char} {fuel : Nat}
    (hfuel : 2 * (writeMembers (m :: ms)).length ≤ fuel) :
    readMembers fuel (writeMembers (m :: ms) ++ rest) = some (documentMembers (m :: ms), rest) := by
  induction ms generalizing m fuel with
  | nil =>
    simp only [writeMembers, List.length_append, List.length_cons] at hfuel
    obtain ⟨fuel, rfl⟩ : ∃ f, fuel = f + 1 := ⟨fuel - 1, by omega⟩
    have hx := h m List.mem_cons_self (closed_cons (c := '\x7d') (by decide) rest) (show _ ≤ fuel by omega)
    simp [writeMembers, writeString_append, readMembers, readString_writeString, hx, skip, isSpace, documentMembers]
  | cons n ns ih =>
    simp only [writeMembers, List.length_append, List.length_cons] at hfuel
    obtain ⟨fuel, rfl⟩ : ∃ f, fuel = f + 1 := ⟨fuel - 1, by omega⟩
    have hx := h m List.mem_cons_self (closed_cons (c := ',') (by decide) (writeMembers (n :: ns) ++ rest))
      (show _ ≤ fuel by omega)
    have hxs := ih (fun z hz => h z (List.mem_cons_of_mem _ hz)) (show _ ≤ fuel by omega)
    rw [documentMembers, writeMembers]
    · simp [writeString_append, readMembers, readString_writeString, hx, hxs, skip, isSpace]
    · simp

theorem write_eq_cons {j : Json} (hj : j.Whole) : ∃ c cs, write j = c :: cs ∧ isSpace c = false ∧ c ≠ ']' := by
  cases hj with
  | bool b => cases b <;> exact ⟨_, _, rfl, by decide, by decide⟩
  | integer n h =>
    obtain ⟨c, cs, hwrite, hc⟩ := writeInt_eq_cons n
    exact ⟨c, cs, hwrite, (numeral_head hc).1, by simpa using fun h => (numeral_head hc).2 (by simp [h])⟩
  | _ => exact ⟨_, _, rfl, by decide, by decide⟩

theorem writeItems_cons (x : Json) (xs : List Json) : ∃ cs, writeItems (x :: xs) = write x ++ cs := by
  cases xs <;> simp [writeItems]

theorem writeMembers_cons (m : String × Json) (ms : List (String × Json)) :
    ∃ cs, writeMembers (m :: ms) = '"' :: cs := by
  cases ms <;> simp [writeMembers, writeString]

theorem writeMembers_closed (ms : List (String × Json)) : ∃ cs, writeMembers ms = cs ++ ['\x7d'] := by
  induction ms with
  | nil => exact ⟨[], rfl⟩
  | cons m ms ih =>
    cases ms with
    | nil => exact ⟨_, rfl⟩
    | cons n ns =>
      obtain ⟨cs, hcs⟩ := ih
      exact ⟨writeString m.1 ++ ':' :: write m.2 ++ ',' :: cs, by simp [writeMembers, hcs]⟩

theorem Legible.of_succ {j : Json} (hj : j.Whole)
    (h : ∀ ⦃rest fuel⦄, Closed rest → 2 * (write j).length ≤ fuel + 1 →
      readValue (fuel + 1) (write j ++ rest) = some (document j, rest)) : Legible j := by
  intro rest fuel hrest hfuel
  obtain ⟨c, cs, hwrite, -⟩ := write_eq_cons hj
  have hlength : (write j).length = cs.length + 1 := by rw [hwrite, List.length_cons]
  obtain ⟨fuel, rfl⟩ : ∃ f, fuel = f + 1 := ⟨fuel - 1, by omega⟩
  exact h hrest hfuel

theorem legible {j : Json} (hj : j.Whole) : Legible j := by
  -- A list takes a step for itself and one for each item, and each of these has a character of its own.
  induction hj with
  | null =>
    refine .of_succ .null fun rest fuel _ _ => ?_
    rw [readValue]
    rfl
  | bool b =>
    refine .of_succ (.bool b) fun rest fuel _ _ => ?_
    rw [readValue]
    cases b <;> rfl
  | integer n h =>
    refine .of_succ (.integer n h) fun rest fuel hrest _ => ?_
    obtain ⟨c, cs, hwrite, hc⟩ := writeInt_eq_cons n
    have hnumber := readNumber_writeInt n hrest
    change readValue (fuel + 1) (writeInt n ++ rest) = _
    rw [hwrite, List.cons_append] at hnumber ⊢
    rw [readValue_number hc, hnumber]
    rfl
  | string s =>
    refine .of_succ (.string s) fun rest fuel _ _ => ?_
    rw [write, writeString_append, readValue, skip_cons (by decide)]
    simp only [readString_writeString]
    rfl
  | @array xs h ih =>
    refine .of_succ (.array h) fun rest fuel _ hfuel => ?_
    cases xs with
    | nil =>
      rw [readValue]
      rfl
    | cons x xs =>
      simp only [write, List.length_cons] at hfuel
      have hitems := @readItems_writeItems x xs ih rest fuel (by omega)
      obtain ⟨c, cs, hwrite, hspace, hc⟩ := write_eq_cons (h x List.mem_cons_self)
      obtain ⟨more, hmore⟩ := writeItems_cons x xs
      rw [hmore, hwrite] at hitems
      rw [write, hmore, hwrite]
      simp only [List.cons_append] at hitems ⊢
      rw [readValue_items hspace hc, hitems]
      rfl
  | @object ms h ih =>
    refine .of_succ (.object h) fun rest fuel _ hfuel => ?_
    cases ms with
    | nil =>
      rw [readValue]
      rfl
    | cons m ms =>
      simp only [write, List.length_cons] at hfuel
      have hmembers := @readMembers_writeMembers m ms ih rest fuel (by omega)
      obtain ⟨more, hmore⟩ := writeMembers_cons m ms
      rw [hmore] at hmembers
      rw [write, hmore]
      simp only [List.cons_append] at hmembers ⊢
      rw [readValue_members, hmembers]
      rfl

theorem read?_render {j : Json} (hj : j.Whole) : Document.read? j.render = some j.document := by
  have h := @legible j hj [] (2 * (write j).length + 2) (fun _ h => nomatch h) (by omega)
  rw [List.append_nil] at h
  rw [Document.read?, render]
  simp only [String.toList_ofList, h]
  rfl

end Document

section Value

mutual

/-- How many arrays and objects enclose one another. -/
def nesting : Json → Nat
  | .array xs => nestingItems xs + 1
  | .object ms => nestingMembers ms + 1
  | _ => 0

def nestingItems : List Json → Nat
  | [] => 0
  | x :: xs => max (nesting x) (nestingItems xs)

def nestingMembers : List (String × Json) → Nat
  | [] => 0
  | (_, x) :: ms => max (nesting x) (nestingMembers ms)

end

theorem nesting_string (s : String) : nesting (.string s) = 0 := rfl

theorem nestingItems_le {xs : List Json} {depth : Nat} : nestingItems xs ≤ depth ↔ ∀ x ∈ xs, nesting x ≤ depth := by
  induction xs with
  | nil => simp [nestingItems]
  | cons x xs ih => rw [nestingItems, max_le_iff, ih, List.forall_mem_cons]

theorem nestingMembers_le {ms : List (String × Json)} {depth : Nat} :
    nestingMembers ms ≤ depth ↔ ∀ m ∈ ms, nesting m.2 ≤ depth := by
  induction ms with
  | nil => simp [nestingMembers]
  | cons m ms ih => rw [nestingMembers, max_le_iff, ih, List.forall_mem_cons]

mutual

/-- The value with every object as it is built from its members. -/
def sorted : Json → Json
  | .array xs => .array (sortedItems xs)
  | .object ms => ofMembers (sortedMembers ms)
  | j => j

def sortedItems : List Json → List Json
  | [] => []
  | x :: xs => sorted x :: sortedItems xs

def sortedMembers : List (String × Json) → List (String × Json)
  | [] => []
  | (k, x) :: ms => (k, sorted x) :: sortedMembers ms

end

theorem sortedItems_eq_map (xs : List Json) : sortedItems xs = xs.map sorted := by
  induction xs with
  | nil => rfl
  | cons x xs ih => rw [sortedItems, ih, List.map_cons]

theorem sortedMembers_eq_map (ms : List (String × Json)) :
    sortedMembers ms = ms.map fun m => (m.1, m.2.sorted) := by
  induction ms with
  | nil => rfl
  | cons m ms ih => rw [sortedMembers, ih, List.map_cons]

/-- A value as readers and calls make it: the keys of every object ascend. -/
inductive InOrder : Json → Prop
  | null : InOrder .null
  | bool (b : Bool) : InOrder (.bool b)
  | number (n : Number) : InOrder (.number n)
  | string (s : String) : InOrder (.string s)
  | array {xs : List Json} (h : ∀ x ∈ xs, InOrder x) : InOrder (.array xs)
  | object {ms : List (String × Json)} (hkeys : (ms.map (·.1)).Pairwise (· < ·)) (h : ∀ m ∈ ms, InOrder m.2) :
    InOrder (.object ms)

theorem InOrder.sorted_eq {j : Json} (h : j.InOrder) : j.sorted = j := by
  induction h with
  | @array xs h ih =>
    rw [sorted, sortedItems_eq_map]
    exact congrArg _ ((List.map_congr_left ih).trans (List.map_id _))
  | @object ms hkeys h ih =>
    have hms : ms.map (fun m => (m.1, m.2.sorted)) = ms :=
      (List.map_congr_left fun m hm => congrArg (m.1, ·) (ih m hm)).trans (List.map_id _)
    rw [sorted, sortedMembers_eq_map, hms, ofMembers, sortMembers_ascending hkeys]
  | _ => rfl

theorem toItems?_document {xs : List Json} {depth : Nat} (h : nestingItems xs ≤ depth)
    (hxs : ∀ x ∈ xs, ∀ depth, nesting x ≤ depth → x.document.toJson? depth = some x.sorted) :
    Document.toItems? depth (documentItems xs) = some (sortedItems xs) := by
  induction xs with
  | nil => rfl
  | cons x xs ih =>
    rw [nestingItems, max_le_iff] at h
    simp [documentItems, Document.toItems?, sortedItems, hxs x List.mem_cons_self depth h.1,
      ih h.2 fun y hy => hxs y (List.mem_cons_of_mem _ hy)]

theorem toMembers?_document {ms : List (String × Json)} {depth : Nat} (h : nestingMembers ms ≤ depth)
    (hms : ∀ m ∈ ms, ∀ depth, nesting m.2 ≤ depth → m.2.document.toJson? depth = some m.2.sorted) :
    Document.toMembers? depth (documentMembers ms) = some (sortedMembers ms) := by
  induction ms with
  | nil => rfl
  | cons m ms ih =>
    rw [nestingMembers, max_le_iff] at h
    simp [documentMembers, Document.toMembers?, sortedMembers, hms m List.mem_cons_self depth h.1,
      ih h.2 fun n hn => hms n (List.mem_cons_of_mem _ hn)]

theorem toJson?_document {j : Json} (hj : j.Whole) {depth : Nat} (h : nesting j ≤ depth) :
    j.document.toJson? depth = some j.sorted := by
  induction hj generalizing depth with
  | integer n hrange => simp [document, Document.toJson?, ofLiteral?_ofInt hrange, sorted]
  | array _ ih =>
    obtain ⟨depth, rfl⟩ : ∃ d, depth = d + 1 := ⟨depth - 1, by rw [nesting] at h; omega⟩
    rw [document, Document.toJson?, toItems?_document (by rw [nesting] at h; omega) fun x hx d hd => ih x hx hd]
    rfl
  | object _ ih =>
    obtain ⟨depth, rfl⟩ : ∃ d, depth = d + 1 := ⟨depth - 1, by rw [nesting] at h; omega⟩
    rw [document, Document.toJson?, toMembers?_document (by rw [nesting] at h; omega) fun m hm d hd => ih m hm hd]
    rfl
  | _ => simp [document, Document.toJson?, sorted]

/-- The value of a text in which no more than so many arrays and objects enclose one another. -/
def readWithin? (depth : Nat) (s : String) : Option Json := do
  (← Document.read? s).toJson? depth

theorem read?_eq (s : String) : read? s = readWithin? Document.maxDepth s := rfl

theorem readWithin?_render {j : Json} (hj : j.Whole) {depth : Nat} (h : nesting j ≤ depth) :
    readWithin? depth j.render = some j.sorted := by
  rw [readWithin?, Document.read?_render hj]
  exact toJson?_document hj h

theorem documentItems_eq_map (xs : List Json) : documentItems xs = xs.map document := by
  induction xs with
  | nil => rfl
  | cons x xs ih => rw [documentItems, ih, List.map_cons]

theorem documentMembers_eq_map (ms : List (String × Json)) :
    documentMembers ms = ms.map fun m => (some m.1, m.2.document) := by
  induction ms with
  | nil => rfl
  | cons m ms ih => rw [documentMembers, ih, List.map_cons]

theorem map_eq_of_mem {α β γ : Type} {f : α → β} {g : α → γ} {xs ys : List α} (h : xs.map f = ys.map f)
    (hfg : ∀ x ∈ xs, ∀ y ∈ ys, f x = f y → g x = g y) : xs.map g = ys.map g := by
  induction xs generalizing ys with
  | nil => rw [List.map_eq_nil_iff.mp h.symm]
  | cons x xs ih =>
    cases ys with
    | nil => cases h
    | cons y ys =>
      obtain ⟨hxy, hmore⟩ := List.cons.inj h
      rw [List.map_cons, List.map_cons, hfg x List.mem_cons_self y List.mem_cons_self hxy,
        ih hmore fun a ha b hb => hfg a (List.mem_cons_of_mem _ ha) b (List.mem_cons_of_mem _ hb)]

theorem document_inj {j k : Json} (hj : j.Whole) (hk : k.Whole) (h : j.document = k.document) : j = k := by
  -- Not by way of the value of the document, which forgets the order of members.
  induction hj generalizing k with
  | integer n hrange =>
    cases hk with
    | integer m hrange' =>
      have hliteral : some (Number.integer n hrange) = some (.integer m hrange') := by
        rw [← ofLiteral?_ofInt hrange, ← ofLiteral?_ofInt hrange', Document.number.inj h]
      rw [Option.some.inj hliteral]
    | _ => cases h
  | @array xs hxs ih =>
    cases hk with
    | @array ys hys =>
      have hitems := Document.array.inj h
      rw [documentItems_eq_map, documentItems_eq_map] at hitems
      have hsame := map_eq_of_mem (g := id) hitems fun x hx y hy hxy => ih x hx (hys y hy) hxy
      rw [List.map_id, List.map_id] at hsame
      rw [hsame]
    | _ => cases h
  | @object ms hms ih =>
    cases hk with
    | @object ns hns =>
      have hmembers := Document.object.inj h
      rw [documentMembers_eq_map, documentMembers_eq_map] at hmembers
      have hsame := map_eq_of_mem (g := id) hmembers fun m hm n hn hmn =>
        Prod.ext (Option.some.inj (Prod.mk.inj hmn).1) (ih m hm (hns n hn) (Prod.mk.inj hmn).2)
      rw [List.map_id, List.map_id] at hsame
      rw [hsame]
    | _ => cases h
  | _ => cases hk <;> simp_all [document]

/-- Two values without doubles have one text only if they are the same, down to the order of members. -/
theorem render_inj {j k : Json} (hj : j.Whole) (hk : k.Whole) (h : j.render = k.render) : j = k := by
  have hread := Document.read?_render hj
  rw [h, Document.read?_render hk] at hread
  exact (document_inj hk hj (Option.some.inj hread)).symm

end Value

end Json

end CatalogClient
