import CatalogClient.Proofs.Bulk.Batching
import CatalogClient.Proofs.Json.Controls
import CatalogClient.Proofs.Text.Lines
/-!
The text of a collection has a line for each value: its lines are as many as the values, and the line at a place
reads as the value at that place, whatever characters stand in its strings.
-/

namespace CatalogClient

namespace Json

/-- A line that is one value to whoever reads it: no control character stands in it, and no depth that the value
keeps within is too small to read it. -/
structure Fills (v : Json) (line : String) : Prop where
  printable : Printable line.toList
  visible : ∃ c ∈ line.toList, Text.isBlank c = false
  reads : ∀ depth, v.nesting ≤ depth → readWithin? depth line = some v

variable {v : Json}

theorem isBlank_numeral {c : Char} (h : c = '-' ∨ Decimal.isDigit c) : Text.isBlank c = false := by
  obtain rfl | hdigit := h
  · rfl
  · exact Decimal.isBlank_of_isDigit hdigit

/-- The text of a value begins with a character that is not blank. -/
theorem visible_write (hv : v.Whole) : ∃ c ∈ write v, Text.isBlank c = false := by
  have hhead : ∃ c cs, write v = c :: cs ∧ Text.isBlank c = false := by
    cases hv with
    | bool b => cases b <;> exact ⟨_, _, rfl, rfl⟩
    | integer n h =>
      obtain ⟨c, cs, hwrite, hc⟩ := writeInt_eq_cons n
      exact ⟨c, cs, hwrite, isBlank_numeral hc⟩
    | _ => exact ⟨_, _, rfl, rfl⟩
  obtain ⟨c, cs, hwrite, hc⟩ := hhead
  exact ⟨c, hwrite ▸ List.mem_cons_self, hc⟩

theorem fills_render (hv : v.Whole) (ho : v.InOrder) : v.Fills v.render where
  printable := by simpa [render] using printable_write hv
  visible := by simpa [render] using visible_write hv
  reads depth h := (readWithin?_render hv h).trans (congrArg some ho.sorted_eq)

end Json

namespace Body

variable {values : List Json}

theorem split_linesText (hne : values ≠ []) (h : ∀ v ∈ values, v.Whole) :
    Text.split '\n' (.ofList (linesText values)) = values.map Json.render := by
  have hwhole : ∀ piece ∈ values.map Json.write, '\n' ∉ piece :=
    List.forall_mem_map.mpr fun v hv => (Json.printable_write (h v hv)).notMem (by decide)
  rw [Text.split, String.toList_ofList, linesText,
    Text.splitList_intercalate (by simpa using hne) hwhole, List.map_map]
  rfl

/-- The lines of a collection are its values, one for one. An item of a chunk is on the line that its place among
the items with bodies says. -/
theorem linesText_framed (hne : values ≠ []) (h : ∀ v ∈ values, v.Whole ∧ v.InOrder) :
    (Text.split '\n' (.ofList (linesText values))).length = values.length ∧
    (∀ (p : Nat) (v : Json), values[p]? = some v →
      ∃ line, (Text.split '\n' (.ofList (linesText values)))[p]? = some line ∧ v.Fills line) ∧
    (∀ collection chunk before item after v, Bulk.lines chunk = values → chunk = before ++ item :: after →
      item.line? = some v → (Bulk.chunkRequest collection chunk).body = .lines values ∧
      ∃ line, (Text.split '\n' (.ofList (linesText values)))[(Bulk.lines before).length]? = some line ∧
        v.Fills line) := by
  have hlines : ∀ (p : Nat) (v : Json), values[p]? = some v →
      ∃ line, (Text.split '\n' (.ofList (linesText values)))[p]? = some line ∧ v.Fills line := by
    intro p v hv
    obtain ⟨hwhole, hinOrder⟩ := h v (List.mem_of_getElem? hv)
    rw [split_linesText hne fun v hv => (h v hv).1, List.getElem?_map, hv]
    exact ⟨v.render, rfl, Json.fills_render hwhole hinOrder⟩
  refine ⟨?_, hlines, ?_⟩
  · rw [split_linesText hne fun v hv => (h v hv).1, List.length_map]
  · rintro collection chunk before item after v rfl rfl hitem
    exact ⟨rfl, hlines _ v (Bulk.getElem?_lines hitem)⟩

/-- A string with a line feed, a carriage return and a Unicode line separator is on the second of three lines. -/
theorem linesText_framed_breaks :
    (Text.split '\n' (.ofList (linesText [.array [], .string "a\n\r\u2028", .null]))).length = 3 ∧
    ∃ line, (Text.split '\n' (.ofList (linesText [.array [], .string "a\n\r\u2028", .null])))[1]? = some line ∧
      Json.read? line = some (.string "a\n\r\u2028") := by
  have hplain : ∀ v ∈ [Json.array [], .string "a\n\r\u2028", .null], v.Whole ∧ v.InOrder := by
    intro v hv
    simp only [List.mem_cons, List.not_mem_nil, or_false] at hv
    obtain rfl | rfl | rfl := hv
    · exact ⟨.array nofun, .array nofun⟩
    · exact ⟨.string _, .string _⟩
    · exact ⟨.null, .null⟩
  obtain ⟨hlength, hlines, -⟩ := linesText_framed (List.cons_ne_nil _ _) hplain
  obtain ⟨line, hline, hfills⟩ := hlines 1 _ rfl
  exact ⟨hlength, line, hline, (Json.read?_eq line).trans (hfills.reads _ (Nat.zero_le _))⟩

end Body

end CatalogClient
