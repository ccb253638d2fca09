import CatalogClient.Bulk.StatusLine
import CatalogClient.Proofs.Bind
import CatalogClient.Proofs.Json.Controls
import CatalogClient.Proofs.Json.Fields
import CatalogClient.Proofs.Text.Lines
/-!
The text of a list of status lines, with blanks around each and blank lines between them, is read back as this
list. A text with a line that is neither blank nor a status line is refused.
-/

namespace CatalogClient

namespace StatusLine

open Json Json.Decode

/-- The numbers of a status line are kept in 64 and 16 bits. -/
structure Fits (s : StatusLine) : Prop where
  line : s.line < Width.beyond64
  status : s.status < Width.beyond16

def members (s : StatusLine) : List (String × Json) :=
  [("line", Json.ofNat s.line)] ++
  (s.identifier.map fun t => ("identifier", .string t)).toList ++
  (s.code.map fun t => ("code", .string t)).toList ++
  [("status_code", Json.ofNat s.status)] ++
  (s.message.map fun t => ("message", .string t)).toList

/-- The compact text of a status line, its members in any order. -/
def Writes (s : StatusLine) (cs : List Char) : Prop := ∃ ms, ms.Perm s.members ∧ cs = (Json.object ms).write

/-- Blanks, of whatever kind, on one line. -/
def Gap (cs : List Char) : Prop := ∀ c ∈ cs, Text.isBlank c ∧ c ≠ '\n'

instance (cs : List Char) : Decidable (Gap cs) := List.decidableBAll (fun c : Char => Text.isBlank c ∧ c ≠ '\n') cs

inductive LineEnd : List Char → Prop
  | lf : LineEnd ['\n']
  | crlf : LineEnd ['\r', '\n']

/-- A line with a status line between blanks, or with blanks alone. -/
inductive OnLine : List StatusLine → List Char → Prop
  | blank {gap : List Char} (hgap : Gap gap) : OnLine [] gap
  | status {s : StatusLine} {before line after : List Char} (hbefore : Gap before) (hline : s.Writes line)
    (hafter : Gap after) : OnLine [s] (before ++ line ++ after)

/-- The texts that write status lines in their order. The last line may go without an end. -/
inductive Rendering : List StatusLine → List Char → Prop
  | last {ss : List StatusLine} {line : List Char} (hline : OnLine ss line) : Rendering ss line
  | more {ss ss' : List StatusLine} {line ending rest : List Char} (hline : OnLine ss line) (hending : LineEnd ending)
    (hrest : Rendering ss' rest) : Rendering (ss ++ ss') (line ++ ending ++ rest)

section Members

variable {s : StatusLine} {ms : List (String × Json)} {line : List Char}

theorem nodup_members (s : StatusLine) : (s.members.map (·.1)).Nodup := by
  cases hidentifier : s.identifier <;> cases hcode : s.code <;> cases hmessage : s.message <;>
    simp [members, hidentifier, hcode, hmessage]

theorem writes_toJson (s : StatusLine) : s.Writes s.toJson.write :=
  ⟨_, sortMembers_perm s.nodup_members, rfl⟩

theorem Fits.whole_members (h : s.Fits) : ∀ m ∈ s.members, m.2.Whole := by
  have hline := whole_ofNat h.line
  have hstatus := whole_ofNat (h.status.trans (by decide))
  simp only [members, List.mem_append, List.mem_singleton, Option.mem_toList, Option.map_eq_some_iff]
  rintro m ((((rfl | ⟨t, -, rfl⟩) | ⟨t, -, rfl⟩) | rfl) | ⟨t, -, rfl⟩)
  exacts [hline, .string t, .string t, hstatus, .string t]

theorem whole_of_perm (h : s.Fits) (hms : ms.Perm s.members) : (Json.object ms).Whole :=
  .object fun m hm => h.whole_members m (hms.mem_iff.mp hm)

theorem decoder_document (h : s.Fits) (hms : ms.Perm s.members) (depth : Nat) :
    decoder (depth + 1) (Json.object ms).document = some s := by
  have hnodup : (ms.map (·.1)).Nodup := (hms.map _).nodup_iff.mpr s.nodup_members
  obtain ⟨fs, hfs, -, -, hfind⟩ :=
    fields_document ["line", "identifier", "code", "status_code", "message"] depth hnodup
  simp only [member?_perm hms hnodup] at hfind
  have hline : fs.required "line" nat64 = some s.line :=
    required_ofNat (by simp [hfind, members]) h.line h.line
  have hidentifier : fs.defaulted "identifier" (option Decode.string) none = some s.identifier :=
    defaulted_string (by simp [hfind, members])
  have hcode : fs.defaulted "code" (option Decode.string) none = some s.code :=
    defaulted_string (by simp [hfind, members])
  have hstatus : fs.required "status_code" nat16 = some s.status :=
    required_ofNat (by simp [hfind, members]) (h.status.trans (by decide)) h.status
  have hmessage : fs.defaulted "message" (option Decode.string) none = some s.message :=
    defaulted_string (by simp [hfind, members])
  simp only [decoder, hfs, hline, hidentifier, hcode, hstatus, hmessage, Option.bind_eq_bind, Option.bind_some]
  rfl

theorem Writes.read (h : s.Writes line) (hfits : s.Fits) : read (.ofList line) = .ok s := by
  obtain ⟨ms, hms, rfl⟩ := h
  have htext : text? decoder (Json.object ms).render = some s := by
    rw [text?, Document.read?_render (whole_of_perm hfits hms), Option.bind_eq_bind, Option.bind_some]
    exact decoder_document hfits hms 126
  rw [StatusLine.read, show String.ofList (Json.object ms).write = (Json.object ms).render from rfl, htext]

end Members

section Lines

variable {s : StatusLine} {ss : List StatusLine} {before line after gap ending : List Char}

theorem Gap.append {gap' : List Char} (h : Gap gap) (h' : Gap gap') : Gap (gap ++ gap') :=
  List.forall_mem_append.mpr ⟨h, h'⟩

theorem LineEnd.exists_gap (h : LineEnd ending) : ∃ gap, Gap gap ∧ ending = gap ++ ['\n'] := by
  cases h with
  | lf => exact ⟨[], by decide, rfl⟩
  | crlf => exact ⟨['\r'], by decide, rfl⟩

theorem significantLines_append (front back : List Char) :
    significantLines (.ofList (front ++ '\n' :: back)) =
      significantLines (.ofList front) ++ significantLines (.ofList back) := by
  simp only [significantLines, Text.split, String.toList_ofList, Text.splitList_append, List.map_append,
    List.filter_append]

theorem significantLines_line (h : '\n' ∉ line) :
    significantLines (.ofList line) = [String.ofList (Text.trimList line)].filter (· ≠ "") := by
  simp only [significantLines, Text.split, String.toList_ofList, Text.splitList_of_not_mem h, List.map_cons,
    List.map_nil, Text.trim]

theorem mem_significantLines {text trimmed : String} :
    trimmed ∈ significantLines text ↔
      ∃ line, Text.IsLine line text.toList ∧ (∃ c ∈ line, Text.isBlank c = false) ∧ Text.trim (.ofList line) = trimmed := by
  have hblank (line : List Char) : Text.trim (.ofList line) ≠ "" ↔ ∃ c ∈ line, Text.isBlank c = false := by
    simp [Text.trim, Text.trimList_eq_nil]
  simp only [significantLines, Text.split, List.mem_filter, List.mem_map, Text.isLine_iff, decide_eq_true_iff,
    exists_exists_and_eq_and]
  constructor
  · rintro ⟨⟨line, hline, rfl⟩, hne⟩
    exact ⟨line, hline, (hblank line).mp hne, rfl⟩
  · rintro ⟨line, hline, hsome, rfl⟩
    exact ⟨⟨line, hline, rfl⟩, (hblank line).mpr hsome⟩

theorem Gap.significantLines (h : Gap gap) : significantLines (.ofList gap) = [] := by
  rw [significantLines_line fun hmem => (h _ hmem).2 rfl, Text.trimList_eq_nil.mpr fun c hc => (h c hc).1]
  rfl

theorem Writes.significantLines (h : s.Writes line) (hfits : s.Fits) (hbefore : Gap before) (hafter : Gap after) :
    significantLines (.ofList (before ++ line ++ after)) = [String.ofList line] := by
  obtain ⟨ms, hms, rfl⟩ := h
  have hline : '\n' ∉ (Json.object ms).write := (printable_write (whole_of_perm hfits hms)).notMem (by decide)
  obtain ⟨cs, hcs⟩ := Document.writeMembers_closed ms
  have hwrite : (Json.object ms).write = '\x7b' :: cs ++ ['\x7d'] := by rw [write, hcs, List.cons_append]
  have htrim : Text.trimList (before ++ (Json.object ms).write ++ after) = (Json.object ms).write := by
    refine Text.trimList_padded (fun c hc => (hbefore c hc).1) (fun c hc => (hafter c hc).1) (by simp [hwrite]) ?_ ?_
    · rw [hwrite]
      rintro c ⟨⟩
      rfl
    · rw [hwrite, List.getLast?_concat]
      rintro c ⟨⟩
      rfl
  rw [significantLines_line, htrim]
  · simp [hwrite]
  · simp only [List.mem_append, not_or]
    exact ⟨⟨fun hmem => (hbefore _ hmem).2 rfl, hline⟩, fun hmem => (hafter _ hmem).2 rfl⟩

theorem OnLine.append_gap (h : OnLine ss line) (hgap : Gap gap) : OnLine ss (line ++ gap) := by
  cases h with
  | blank hline => exact .blank (hline.append hgap)
  | status hbefore hline hafter =>
    rw [List.append_assoc]
    exact .status hbefore hline (hafter.append hgap)

theorem OnLine.significantLines (h : OnLine ss line) (hfits : ∀ s ∈ ss, s.Fits) :
    List.Forall₂ (fun s line => s.Writes line.toList) ss (significantLines (.ofList line)) := by
  cases h with
  | blank hgap => exact hgap.significantLines ▸ .nil
  | status hbefore hline hafter =>
    rw [hline.significantLines (hfits _ List.mem_cons_self) hbefore hafter]
    exact .cons (String.toList_ofList ▸ hline) .nil

/-- The lines of a rendering that are not blank write its status lines, one for one. -/
theorem Rendering.significantLines {text : List Char} (h : Rendering ss text) (hfits : ∀ s ∈ ss, s.Fits) :
    List.Forall₂ (fun s line => s.Writes line.toList) ss (significantLines (.ofList text)) := by
  induction h with
  | last hline => exact hline.significantLines hfits
  | more hline hending _ ih =>
    obtain ⟨hss, hss'⟩ := List.forall_mem_append.mp hfits
    -- The carriage return of an ending counts with the blanks before it.
    obtain ⟨gap, hgap, rfl⟩ := hending.exists_gap
    rw [← List.append_assoc, List.append_assoc, List.singleton_append, significantLines_append]
    exact List.rel_append ((hline.append_gap hgap).significantLines hss) (ih hss')

theorem mapM_read {lines : List String} (h : List.Forall₂ (fun s line => s.Writes line.toList) ss lines)
    (hfits : ∀ s ∈ ss, s.Fits) : lines.mapM read = .ok ss := by
  induction h with
  | nil => rfl
  | @cons s line _ _ hline _ ih =>
    obtain ⟨hs, hss⟩ := List.forall_mem_cons.mp hfits
    have hread := hline.read hs
    rw [String.ofList_toList] at hread
    rw [except_mapM_cons, hread, ih hss]
    rfl

theorem read_eq_error {line : String} {f : Failure} :
    read line = .error f ↔
      text? decoder line = none ∧ f = .decode ("invalid bulk status line: " ++ Response.unreadable) := by
  rw [read]
  cases text? decoder line with
  | none => simp [eq_comm]
  | some s => simp

theorem readAll_eq_error {text : String} :
    readAll text = .error (.decode ("invalid bulk status line: " ++ Response.unreadable)) ↔
      ∃ line ∈ significantLines text, text? decoder line = none := by
  constructor
  · intro h
    obtain ⟨line, hline, hfault⟩ := except_mapM_error h
    exact ⟨line, hline, (read_eq_error.mp hfault).1⟩
  · rintro ⟨line, hline, hnone⟩
    cases hread : readAll text with
    | ok ss =>
      obtain ⟨s, hs⟩ := except_mapM_ok hread line hline
      rw [read_eq_error.mpr ⟨hnone, rfl⟩] at hs
      cases hs
    | error f =>
      obtain ⟨_, -, hfault⟩ := except_mapM_error hread
      rw [(read_eq_error.mp hfault).2]

end Lines

/-- What is written is read back, and a text is refused exactly for a line that is neither blank nor a status line. -/
theorem readAll_renderings (text : String) :
    (∀ ss : List StatusLine, (∀ s ∈ ss, s.Fits) → Rendering ss text.toList → readAll text = .ok ss) ∧
    (readAll text = .error (.decode ("invalid bulk status line: " ++ Response.unreadable)) ↔
      ∃ line : List Char, Text.IsLine line text.toList ∧ (∃ c ∈ line, Text.isBlank c = false) ∧
        text? decoder (Text.trim (.ofList line)) = none) := by
  constructor
  · intro ss hfits h
    have hlines := h.significantLines hfits
    rw [String.ofList_toList] at hlines
    exact mapM_read hlines hfits
  · rw [readAll_eq_error]
    constructor
    · rintro ⟨trimmed, hmem, hnone⟩
      obtain ⟨line, hline, hblank, rfl⟩ := mem_significantLines.mp hmem
      exact ⟨line, hline, hblank, hnone⟩
    · rintro ⟨line, hline, hblank, hnone⟩
      exact ⟨_, mem_significantLines.mpr ⟨line, hline, hblank, rfl⟩, hnone⟩

theorem readAll_renderings_mixed :
    readAll ("\n \t\x7b\"line\":1,\"identifier\":\"a\",\"status_code\":422,\"message\":" ++
        "\"x\\ny\u2028\"\x7d\t\r\n\u2003\r\n\x7b\"line\":2,\"code\":\"b\",\"status_code\":204\x7d") =
      .ok [⟨1, some "a", none, 422, some "x\ny\u2028"⟩, ⟨2, none, some "b", 204, none⟩] ∧
    readAll "\x7b\"line\":1,\"status_code\":204\x7d\n not json\n" =
      .error (.decode ("invalid bulk status line: " ++ Response.unreadable)) := by
  constructor
  · refine (readAll_renderings _).1 _ ?_ ?_
    · intro s hs
      simp only [List.mem_cons, List.not_mem_nil, or_false] at hs
      obtain rfl | rfl := hs <;> exact ⟨by decide, by decide⟩
    · have hwritten (s : StatusLine) : s.Writes (Json.object s.members).write := ⟨_, .refl _, rfl⟩
      have htext : ("\n \t\x7b\"line\":1,\"identifier\":\"a\",\"status_code\":422,\"message\":" ++
            "\"x\\ny\u2028\"\x7d\t\r\n\u2003\r\n\x7b\"line\":2,\"code\":\"b\",\"status_code\":204\x7d").toList =
          [] ++ ['\n'] ++ ([' ', '\t'] ++ (Json.object (members ⟨1, some "a", none, 422, some "x\ny\u2028"⟩)).write ++
            ['\t'] ++ ['\r', '\n'] ++ (['\u2003'] ++ ['\r', '\n'] ++
            ([] ++ (Json.object (members ⟨2, none, some "b", 204, none⟩)).write ++ []))) := by decide +kernel
      rw [htext]
      have hempty : Gap [] := by decide
      have hbefore : Gap [' ', '\t'] := by decide
      have hafter : Gap ['\t'] := by decide
      have hbetween : Gap ['\u2003'] := by decide
      exact .more (.blank hempty) .lf (.more (.status hbefore (hwritten _) hafter) .crlf
        (.more (.blank hbetween) .crlf (.last (.status hempty (hwritten _) hempty))))
  · have hline : Text.IsLine " not json".toList "\x7b\"line\":1,\"status_code\":204\x7d\n not json\n".toList :=
      ⟨by decide +kernel, "\x7b\"line\":1,\"status_code\":204\x7d\n".toList, ['\n'], by decide +kernel,
        .inr (by decide +kernel), .inr rfl⟩
    exact (readAll_renderings _).2.mpr ⟨_, hline, ⟨'n', by decide +kernel, rfl⟩, by decide +kernel⟩

end StatusLine

end CatalogClient
