import CatalogClient.Proofs.Bind
import CatalogClient.Proofs.Json.Record
import CatalogClient.Proofs.Text.Utf8
import CatalogClient.RemoteError
/-!
What the client learns from an error document. It is all that the document says, or nothing: a single member that is
not as expected hides the message and every complaint.
-/

namespace CatalogClient

open Json Json.Decode Json.Document

namespace RemoteViolation

variable {d : Document} {depth : Nat}

abbrev names : List String := ["property", "attribute", "message"]

/-- An entry whose complaint the client can read. -/
structure Legible (d : Document) : Prop where
  isRecord : d.IsRecord names
  texts : ∀ name ∈ names, AtMostText (d.field? names name)

/-- What an entry complains about: the attribute, or else the property. -/
def blamed? (d : Document) : Option String :=
  (textOf? (d.field? names "attribute")).or (textOf? (d.field? names "property"))

def complaint? (d : Document) : Option Violation :=
  (blamed? d).map fun p => ⟨p, (textOf? (d.field? names "message")).getD ""⟩

theorem map_property_complaints (xs : List Document) :
    (xs.filterMap complaint?).map (·.property) = xs.filterMap blamed? := by
  have hproperty : ∀ d, (complaint? d).map (·.property) = blamed? d := fun d => by
    rw [complaint?, Option.map_map]
    exact Option.map_id'
  rw [List.map_filterMap]
  exact congrArg (List.filterMap · xs) (funext hproperty)

def asWritten (d : Document) : RemoteViolation :=
  ⟨textOf? (d.field? names "property"), textOf? (d.field? names "attribute"), textOf? (d.field? names "message")⟩

theorem toViolation?_asWritten (d : Document) : (asWritten d).toViolation? = complaint? d := rfl

theorem decoder_eq_some (d : Document) (v : RemoteViolation) :
    decoder (depth + 1) d = some v ↔ Legible d ∧ v = asWritten d := by
  constructor
  · intro h
    obtain ⟨fs, hfs, h⟩ := Option.bind_eq_some_iff.mp h
    obtain ⟨p, hproperty, h⟩ := Option.bind_eq_some_iff.mp h
    obtain ⟨a, hattribute, h⟩ := Option.bind_eq_some_iff.mp h
    obtain ⟨t, hmessage, h⟩ := Option.bind_eq_some_iff.mp h
    cases h
    obtain ⟨hrecord, hfind⟩ := of_fields hfs
    obtain ⟨hp, rfl⟩ := (defaulted_text_eq_some (hfind "property" (by decide))).mp hproperty
    obtain ⟨ha, rfl⟩ := (defaulted_text_eq_some (hfind "attribute" (by decide))).mp hattribute
    obtain ⟨ht, rfl⟩ := (defaulted_text_eq_some (hfind "message" (by decide))).mp hmessage
    exact ⟨⟨hrecord, by simp [hp, ha, ht]⟩, rfl⟩
  · rintro ⟨hlegible, rfl⟩
    obtain ⟨fs, hfs, -, hfind⟩ := fields_of_isRecord hlegible.isRecord depth
    have hread : ∀ name ∈ names, fs.defaulted name (option string) none = some (textOf? (d.field? names name)) :=
      fun name hname => (defaulted_text_eq_some (hfind name hname)).mpr ⟨hlegible.texts name hname, rfl⟩
    simp [decoder, hfs, hread, asWritten]

end RemoteViolation

namespace RemoteError

open RemoteViolation

variable {ms : List (Option String × Document)} {m : String} {xs : List Document}

abbrev names : List String := ["code", "message", "errors"]

/-- An error document with these entries that the client can read. Members of other names may be anything. -/
structure Legible (ms : List (Option String × Document)) (xs : List Document) : Prop where
  isRecord : IsRecord names (.object ms)
  code : AtMostNumber Width.beyond16 (firstMember? "code" ms)
  entries : ∀ x ∈ xs, RemoteViolation.Legible x

theorem list_decoder_eq_some (depth : Nat) (vs : List RemoteViolation) :
    list RemoteViolation.decoder (depth + 2) (.array xs) = some vs ↔
      (∀ x ∈ xs, RemoteViolation.Legible x) ∧ vs = xs.map asWritten :=
  mapM_eq_some_iff RemoteViolation.decoder_eq_some

theorem decoder_of_legible (h : Legible ms xs) (hmessage : firstMember? "message" ms = some (.string (some m)))
    (herrors : firstMember? "errors" ms = some (.array xs)) (depth : Nat) :
    ∃ code, decoder (depth + 3) (.object ms) = some ⟨code, some m, xs.map asWritten⟩ := by
  obtain ⟨fs, hfs, hdepth, hfind⟩ := fields_of_isRecord h.isRecord (depth + 2)
  obtain ⟨code, hcode⟩ := Option.isSome_iff_exists.mp
    ((defaulted_number_isSome (by decide) (hfind "code" (by decide))).mpr h.code)
  have htext : fs.defaulted "message" (option string) none = some (some m) := by
    rw [Fields.defaulted, hfind "message" (by decide), Document.field?, hmessage]
    rfl
  have hentries : fs.defaulted "errors" (list RemoteViolation.decoder) [] = some (xs.map asWritten) := by
    rw [Fields.defaulted, hfind "errors" (by decide), Document.field?, herrors, hdepth]
    exact (list_decoder_eq_some depth _).mpr ⟨h.entries, rfl⟩
  refine ⟨code, ?_⟩
  change Option.bind (fields names (depth + 3) (.object ms)) _ = _
  rw [hfs, Option.bind_some]
  change Option.bind (fs.defaulted "code" (option (natBelow Width.beyond16)) none) _ = _
  rw [hcode, Option.bind_some, htext, hentries]
  rfl

theorem legible_of_decoder {e : RemoteError} {depth : Nat} (h : decoder (depth + 3) (.object ms) = some e)
    (herrors : firstMember? "errors" ms = some (.array xs)) : Legible ms xs := by
  obtain ⟨fs, hfs, h⟩ := Option.bind_eq_some_iff.mp h
  obtain ⟨code, hcode, h⟩ := Option.bind_eq_some_iff.mp h
  obtain ⟨m, -, h⟩ := Option.bind_eq_some_iff.mp h
  obtain ⟨vs, hvs, -⟩ := Option.bind_eq_some_iff.mp h
  obtain ⟨hrecord, hfind⟩ := of_fields hfs
  have hdepth : depth + 2 = fs.depth := Nat.succ.inj (depth_of_fields hfs)
  refine ⟨hrecord, ?_, ?_⟩
  · exact (defaulted_number_isSome (by decide) (hfind "code" (by decide))).mp
      (Option.isSome_iff_exists.mpr ⟨code, hcode⟩)
  · rw [Fields.defaulted, hfind "errors" (by decide), Document.field?, herrors, ← hdepth] at hvs
    exact ((list_decoder_eq_some depth vs).mp hvs).1

theorem ofBody_eq {body : List UInt8} (hbody : Document.ofBytes? body = some (.object ms)) :
    ofBody body = (decoder (124 + 3) (.object ms)).getD silent := by
  have hdepth : Document.maxDepth = 124 + 3 := rfl
  rw [ofBody, bytes?, hbody, Option.bind_eq_bind, Option.bind_some, hdepth]

end RemoteError

namespace Response

open RemoteViolation

variable {r : Response} {ms : List (Option String × Document)} {m : String} {xs : List Document}

theorem toFailure_of_invalid (hstatus : r.status = 400 ∨ r.status = 422) (path : String) :
    r.toFailure path = .validation (some r.status) ((RemoteError.ofBody r.body).message.getD r.fallbackMessage)
      ((RemoteError.ofBody r.body).violations.head?.map (·.property)) (RemoteError.ofBody r.body).violations := by
  unfold toFailure
  obtain hs | hs := hstatus <;> simp only [hs]

theorem toFailure_of_legible (hstatus : r.status = 400 ∨ r.status = 422)
    (hbody : Document.ofBytes? r.body = some (.object ms))
    (hmessage : firstMember? "message" ms = some (.string (some m)))
    (herrors : firstMember? "errors" ms = some (.array xs)) (h : RemoteError.Legible ms xs) (path : String) :
    r.toFailure path = .validation (some r.status) m (xs.filterMap blamed?).head? (xs.filterMap complaint?) := by
  obtain ⟨code, hdecoder⟩ := RemoteError.decoder_of_legible h hmessage herrors 124
  have hviolations : (xs.map asWritten).filterMap toViolation? = xs.filterMap complaint? := by
    rw [List.filterMap_map]
    exact List.filterMap_congr fun d _ => toViolation?_asWritten d
  rw [toFailure_of_invalid hstatus, RemoteError.ofBody_eq hbody, hdecoder, Option.getD_some, RemoteError.violations,
    hviolations, Option.getD_some, ← List.head?_map, map_property_complaints]

theorem toFailure_of_illegible (hstatus : r.status = 400 ∨ r.status = 422)
    (hbody : Document.ofBytes? r.body = some (.object ms)) (herrors : firstMember? "errors" ms = some (.array xs))
    (h : ¬RemoteError.Legible ms xs) (path : String) :
    r.toFailure path = .validation (some r.status) r.fallbackMessage none [] := by
  have hdecoder : RemoteError.decoder (124 + 3) (.object ms) = none :=
    Option.eq_none_iff_forall_ne_some.mpr fun e he => h (RemoteError.legible_of_decoder he herrors)
  have hnone : RemoteError.silent.violations = [] := rfl
  have hmessage : RemoteError.silent.message = none := rfl
  rw [toFailure_of_invalid hstatus, RemoteError.ofBody_eq hbody, hdecoder, Option.getD_none, hnone, hmessage,
    Option.getD_none, List.head?_nil, Option.map_none]

/-- An error document with a message and complaints is passed on whole, or not at all. -/
theorem toFailure_of_errorDocument (hstatus : r.status = 400 ∨ r.status = 422)
    (hbody : Document.ofBytes? r.body = some (.object ms))
    (hmessage : firstMember? "message" ms = some (.string (some m)))
    (herrors : firstMember? "errors" ms = some (.array xs)) (path : String) :
    (RemoteError.Legible ms xs →
      r.toFailure path =
        .validation (some r.status) m (xs.filterMap blamed?).head? (xs.filterMap complaint?) ∧
      ∀ x ∈ xs, ∀ p, blamed? x = some p → ∃ v ∈ xs.filterMap complaint?, v.property = p) ∧
    (¬RemoteError.Legible ms xs → r.toFailure path = .validation (some r.status) r.fallbackMessage none []) := by
  refine ⟨fun h => ⟨toFailure_of_legible hstatus hbody hmessage herrors h path, fun x hx p hp => ?_⟩, fun h =>
    toFailure_of_illegible hstatus hbody herrors h path⟩
  rw [← List.mem_map, map_property_complaints]
  exact List.mem_filterMap.mpr ⟨x, hx, hp⟩

/-- An answer with an error document. -/
def rejected (code : Json) (entries : List Json) : Response :=
  .make 422 [] (Text.Utf8.encode
    (Json.object [("code", code), ("message", .string "Validation failed."), ("errors", .array entries)]).render)

/-- The members of the document. -/
def rejectedMembers (code : Json) (entries : List Json) : List (Option String × Document) :=
  [(some "code", code.document), (some "message", .string (some "Validation failed.")),
    (some "errors", .array (entries.map document))]

theorem ofBytes?_rejected {code : Json} {entries : List Json} (hcode : code.Whole)
    (hentries : ∀ e ∈ entries, e.Whole) :
    Document.ofBytes? (rejected code entries).body = some (.object (rejectedMembers code entries)) := by
  have hwhole : (Json.object [("code", code), ("message", .string "Validation failed."),
      ("errors", .array entries)]).Whole :=
    .object (by simp [hcode, Whole.string, Whole.array hentries])
  have hbody : (rejected code entries).body = Text.Utf8.encode (Json.object [("code", code),
      ("message", .string "Validation failed."), ("errors", .array entries)]).render := rfl
  rw [hbody, Document.ofBytes?, Text.Utf8.decode?_encode]
  refine (read?_render hwhole).trans ?_
  simp [document, documentMembers_eq_map, documentItems_eq_map, rejectedMembers]

/-- A complaint about an attribute, with a member the client does not know, and one about a property. -/
def twoComplaints : List Json := [
  .object [("attribute", .string "ean"), ("property", .string "values"), ("level", .array [.bool true])],
  .object [("property", .string "family"), ("message", .string "unknown family"), ("attribute", .null)]]

theorem legible_twoComplaints : ∀ x ∈ twoComplaints.map document, RemoteViolation.Legible x := by
  have hfirst : RemoteViolation.Legible (twoComplaints[0].document) :=
    ⟨⟨by simp [document, documentMembers], by decide +kernel⟩, by
      simp [twoComplaints, document, documentMembers, documentItems, AtMostText, Document.field?, firstMember?]⟩
  have hsecond : RemoteViolation.Legible (twoComplaints[1].document) :=
    ⟨⟨by simp [document, documentMembers], by decide +kernel⟩, by
      simp [twoComplaints, document, documentMembers, AtMostText, Document.field?, firstMember?]⟩
  exact List.forall_mem_cons.mpr ⟨hfirst, List.forall_mem_singleton.mpr hsecond⟩

theorem toFailure_of_errorDocument_two :
    (rejected (.ofNat 422) twoComplaints).toFailure "/api/rest/v1/products" =
      .validation (some 422) "Validation failed." (some "ean") [⟨"ean", ""⟩, ⟨"family", "unknown family"⟩] := by
  have hbody : Document.ofBytes? (rejected (.ofNat 422) twoComplaints).body =
      some (.object (rejectedMembers (.ofNat 422) twoComplaints)) := by
    refine ofBytes?_rejected (whole_ofNat (by decide)) ?_
    simp [twoComplaints, Whole.object, Whole.string, Whole.array, Whole.bool, Whole.null]
  have hlegible : RemoteError.Legible (rejectedMembers (.ofNat 422) twoComplaints) (twoComplaints.map document) := by
    refine ⟨⟨by simp [rejectedMembers], by decide +kernel⟩, ?_, legible_twoComplaints⟩
    rintro d ⟨⟩
    exact .inr ⟨.ofInt 422, rfl, by decide +kernel⟩
  exact ((toFailure_of_errorDocument (.inr rfl) hbody rfl rfl "/api/rest/v1/products").1 hlegible).1

/-- A complaint about a property. -/
def unknownFamily : Json := .object [("property", .string "family"), ("message", .string "unknown family")]

/-- A code that is no number hides the message and the complaint. -/
theorem toFailure_of_code_text : ∃ ms xs,
    Document.ofBytes? (rejected (.string "validation_failed") [unknownFamily]).body = some (.object ms) ∧
      firstMember? "message" ms = some (.string (some "Validation failed.")) ∧
      firstMember? "errors" ms = some (.array xs) ∧ xs.filterMap blamed? = ["family"] ∧
      (rejected (.string "validation_failed") [unknownFamily]).toFailure "/api/rest/v1/products" =
        .validation (some 422) (rejected (.string "validation_failed") [unknownFamily]).fallbackMessage none [] := by
  have hwhole : unknownFamily.Whole := .object (by simp [Whole.string])
  have hbody := ofBytes?_rejected (.string "validation_failed") (List.forall_mem_singleton.mpr hwhole)
  have hillegible : ¬RemoteError.Legible (rejectedMembers (.string "validation_failed") [unknownFamily])
      ([unknownFamily].map document) := fun h => by
    obtain hnull | ⟨l, hnumber, -⟩ := h.code _ rfl
    · cases hnull
    · cases hnumber
  exact ⟨_, _, hbody, rfl, rfl, by decide +kernel,
    toFailure_of_illegible (.inr rfl) hbody rfl hillegible "/api/rest/v1/products"⟩

end Response

end CatalogClient
