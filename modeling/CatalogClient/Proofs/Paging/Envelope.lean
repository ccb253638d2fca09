import CatalogClient.Page
import CatalogClient.Proofs.Json.Fields
import CatalogClient.Proofs.Json.Reader
/-!
Pages as documents. What is written of a page is read back, and whatever is read of one is written and read again
without a change. A page handed out loses nothing of it, and leads on as it did when its items are mapped.
-/

namespace CatalogClient

open Json Json.Decode

namespace Envelope

variable {α : Type} {e : Envelope Json} {depth : Nat}

/-- What the fields can hold: numbers of 32 and 64 bits, relations in their order, and values as they are built,
here without doubles. -/
structure Fits (e : Envelope Json) : Prop where
  links : (e.links.map (·.1)).Pairwise (· < ·)
  currentPage : ∀ n ∈ e.currentPage, n < Width.beyond32
  itemsCount : ∀ n ∈ e.itemsCount, n < Width.beyond64
  whole : ∀ x ∈ e.items, x.Whole
  inOrder : ∀ x ∈ e.items, x.InOrder

section Writing

def linkJson (url : String) : Json := .object [("href", .string url)]

def members (e : Envelope Json) : List (String × Json) :=
  (if e.links = [] then [] else [("_links", Json.ofMembers (e.links.map fun (rel, url) => (rel, linkJson url)))]) ++
  (e.currentPage.map fun n => ("current_page", Json.ofNat n)).toList ++
  (e.itemsCount.map fun n => ("items_count", Json.ofNat n)).toList ++
  [("_embedded", .object [("items", .array e.items)])]

theorem nodup_members (e : Envelope Json) : (e.members.map (·.1)).Nodup := by
  cases hpage : e.currentPage <;> cases hcount : e.itemsCount <;> by_cases hlinks : e.links = [] <;>
    simp [members, hpage, hcount, hlinks]

theorem linkDecoder_document (depth : Nat) (url : String) :
    linkDecoder (depth + 1) (linkJson url).document = some url := single_document rfl

theorem embeddedDecoder_document {items : List Json} (h : ∀ x ∈ items, json depth x.document = some x) :
    embeddedDecoder json (depth + 2) (Json.object [("items", .array items)]).document = some items := by
  refine single_document ?_
  have hitems := list_document (g := id) h
  rwa [List.map_id] at hitems

theorem json_document {x : Json} (hw : x.Whole) (ho : x.InOrder) (h : x.nesting ≤ depth) :
    json depth x.document = some x := (toJson?_document hw h).trans (congrArg some ho.sorted_eq)

theorem ascending_linkMembers (h : (e.links.map (·.1)).Pairwise (· < ·)) :
    ((e.links.map fun (rel, url) => (rel, linkJson url)).map (·.1)).Pairwise (· < ·) := by
  rw [List.map_map]
  exact h

theorem Fits.decoder_document (h : e.Fits) (hdepth : ∀ x ∈ e.items, x.nesting ≤ depth) :
    decoder json (depth + 3) e.toJson.document = some e := by
  have hperm := sortMembers_perm e.nodup_members
  have hnodup := (hperm.map (·.1)).nodup_iff.mpr e.nodup_members
  obtain ⟨fs, hfs, -, hfsDepth, hfind⟩ :=
    fields_document ["_links", "current_page", "items_count", "_embedded"] (depth + 2) hnodup
  simp only [member?_perm hperm hnodup] at hfind
  have hlinks : fs.defaulted "_links" (Decode.members linkDecoder) [] = some e.links := by
    have hfound : fs.find? "_links" = (if e.links = [] then none else
        some (Json.ofMembers (e.links.map fun (rel, url) => (rel, linkJson url)))).map document := by
      simp [hfind, members]
    rw [Fields.defaulted, hfound, hfsDepth]
    by_cases hnone : e.links = []
    · rw [if_pos hnone, hnone]
      rfl
    · rw [if_neg hnone, Json.ofMembers, sortMembers_ascending (ascending_linkMembers h.links)]
      exact members_document h.links fun m _ => linkDecoder_document depth m.2
  have hpage : fs.defaulted "current_page" (option nat32) none = some e.currentPage :=
    defaulted_ofNat (by simp [hfind, members]) (fun n hn => (h.currentPage n hn).trans (by decide)) h.currentPage
  have hcount : fs.defaulted "items_count" (option nat64) none = some e.itemsCount :=
    defaulted_ofNat (by simp [hfind, members]) h.itemsCount h.itemsCount
  have hitems : fs.required "_embedded" (embeddedDecoder json) = some e.items := by
    have hfound : fs.find? "_embedded" = some (Json.object [("items", .array e.items)]).document := by
      simp [hfind, members]
    rw [Fields.required, hfound, hfsDepth]
    exact embeddedDecoder_document fun x hx => json_document (h.whole x hx) (h.inOrder x hx) (hdepth x hx)
  change (fields _ _ (Json.object (sortMembers e.members)).document).bind _ = _
  rw [hfs, Option.bind_some]
  simp only [hlinks, hpage, hcount, hitems, Option.bind_eq_bind, Option.bind_some]
  rfl

theorem whole_links (links : List (String × String)) :
    (Json.ofMembers (links.map fun (rel, url) => (rel, linkJson url))).Whole := by
  refine .object fun m hm => ?_
  obtain ⟨l, -, rfl⟩ := List.mem_map.mp (mem_of_mem_sortMembers hm)
  exact .object (List.forall_mem_singleton.mpr (.string l.2))

theorem Fits.whole_toJson (h : e.Fits) : e.toJson.Whole := by
  refine .object fun m hm => ?_
  have hmem : m ∈ e.members := mem_of_mem_sortMembers hm
  simp only [members, List.mem_append, List.mem_singleton, Option.mem_toList, Option.map_eq_some_iff] at hmem
  obtain ((hmem | ⟨n, hn, rfl⟩) | ⟨n, hn, rfl⟩) | rfl := hmem
  · split at hmem
    · cases hmem
    · cases List.mem_singleton.mp hmem
      exact whole_links e.links
  · exact whole_ofNat ((h.currentPage n hn).trans (by decide))
  · exact whole_ofNat (h.itemsCount n hn)
  · exact .object (List.forall_mem_singleton.mpr (.array h.whole))

theorem Fits.textWithin?_render (h : e.Fits) (hdepth : ∀ x ∈ e.items, x.nesting ≤ depth) :
    textWithin? (decoder json) (depth + 3) e.toJson.render = some e := by
  rw [textWithin?, Document.read?_render h.whole_toJson]
  exact h.decoder_document hdepth

end Writing

section Reading

variable {f : Decoder α} {d : Document} {a : Envelope α}

theorem decoder_eq_some (h : decoder f depth d = some a) :
    (a.links.map (·.1)).Pairwise (· < ·) ∧ (∀ n ∈ a.currentPage, n < Width.beyond32) ∧
      (∀ n ∈ a.itemsCount, n < Width.beyond64) ∧
      ∃ n, ∃ xs : List Document, depth = n + 3 ∧ xs.mapM (f n) = some a.items := by
  obtain ⟨fs, hfs, h⟩ := Option.bind_eq_some_iff.mp h
  obtain ⟨links, hlinks, h⟩ := Option.bind_eq_some_iff.mp h
  obtain ⟨page, hpage, h⟩ := Option.bind_eq_some_iff.mp h
  obtain ⟨count, hcount, h⟩ := Option.bind_eq_some_iff.mp h
  obtain ⟨items, hitems, h⟩ := Option.bind_eq_some_iff.mp h
  cases h
  refine ⟨?_, lt_of_defaulted hpage, lt_of_defaulted hcount, ?_⟩
  · obtain rfl | ⟨d, hd⟩ := default_or_read hlinks
    · exact .nil
    · exact ascending_of_members hd
  · obtain ⟨d, -, hembedded⟩ := required_eq_some.mp hitems
    obtain ⟨gs, hgs, hlist⟩ := Option.bind_eq_some_iff.mp hembedded
    obtain ⟨d, -, hlist⟩ := required_eq_some.mp hlist
    obtain ⟨n, xs, hn, hxs⟩ := mapM_of_list hlist
    have hdepth := depth_of_fields hfs
    have hembeddedDepth := depth_of_fields hgs
    exact ⟨n, xs, by omega, hxs⟩

/-- What is read fits, and can be read with the depth that was left for it. -/
theorem fits_of_decoder (h : decoder json depth d = some e) (hwhole : ∀ x ∈ e.items, x.Whole) :
    e.Fits ∧ ∃ n, depth = n + 3 ∧ ∀ x ∈ e.items, x.nesting ≤ n := by
  obtain ⟨hlinks, hpage, hcount, n, xs, hdepth, hxs⟩ := decoder_eq_some h
  have hitems : ∀ x ∈ e.items, x.InOrder ∧ x.nesting ≤ n :=
    forall_of_mapM (fun y x hx => Document.inOrder_toJson? n y hx) hxs
  exact ⟨⟨hlinks, hpage, hcount, hwhole, fun x hx => (hitems x hx).1⟩, n, hdepth, fun x hx => (hitems x hx).2⟩

end Reading

end Envelope

namespace Page

variable {α β : Type}

/-- The envelope that a page was made from. -/
def envelope (p : Page α) : Envelope α := ⟨p.links, p.currentPage, p.itemsCount, p.items⟩

/-- Of the items only their number decides where a page leads. -/
theorem nextCursor_congr {p : Page α} {q : Page β} (hlinks : q.links = p.links)
    (hpage : q.currentPage = p.currentPage) (hrequest : q.request = p.request)
    (hitems : q.items.length = p.items.length) : q.nextCursor = p.nextCursor := by
  have hempty : q.items.isEmpty = p.items.isEmpty := by
    rw [Bool.eq_iff_iff, List.isEmpty_iff_length_eq_zero, List.isEmpty_iff_length_eq_zero, hitems]
  have hnext : q.link? "next" = p.link? "next" := by rw [link?, link?, hlinks]
  have hquery : q.queryNumber? = p.queryNumber? := by
    funext key
    rw [queryNumber?, queryNumber?, hrequest]
  simp only [nextCursor, limit, number, hlinks, hnext, hpage, hquery, hitems, hempty]
  rfl

theorem nextCursor_map (f : α → β) (p : Page α) : (p.map f).nextCursor = p.nextCursor :=
  nextCursor_congr rfl rfl rfl (List.length_map f)

theorem requestAt_map (f : α → β) (p : Page α) : (p.map f).requestAt = p.requestAt := by
  funext cursor
  cases cursor <;> rfl

theorem nextRequest_map (f : α → β) (p : Page α) : (p.map f).nextRequest = p.nextRequest := by
  rw [nextRequest, nextRequest, nextCursor_map, requestAt_map]

end Page

namespace Envelope

/-- Written and read, read and written and read again, handed out as a page, and mapped: nothing of an envelope is
lost. A document is read again with the depth with which it was read. -/
theorem page_round_trip :
    (∀ (e : Envelope Json) (depth : Nat), e.Fits → (∀ x ∈ e.items, x.nesting ≤ depth) →
      decoder json (depth + 3) e.toJson.document = some e ∧
      textWithin? (decoder json) (depth + 3) e.toJson.render = some e) ∧
    (∀ (depth : Nat) (d : Document) (e : Envelope Json), decoder json depth d = some e →
      (∀ x ∈ e.items, x.Whole) →
      decoder json depth e.toJson.document = some e ∧
      textWithin? (decoder json) depth e.toJson.render = some e) ∧
    (∀ {α : Type} (e : Envelope α) (request : Request),
      (Page.ofEnvelope e request).envelope = e ∧ (Page.ofEnvelope e request).request = request) ∧
    (∀ {α β : Type} (f : α → β) (p : Page α),
      (p.map f).envelope = ⟨p.links, p.currentPage, p.itemsCount, p.items.map f⟩ ∧
      (p.map f).request = p.request ∧ (p.map f).nextCursor = p.nextCursor ∧
      (p.map f).nextRequest = p.nextRequest) := by
  refine ⟨fun e depth h hdepth => ⟨h.decoder_document hdepth, h.textWithin?_render hdepth⟩, ?_,
    fun e request => ⟨rfl, rfl⟩, fun f p => ⟨rfl, rfl, p.nextCursor_map f, p.nextRequest_map f⟩⟩
  intro depth d e h hwhole
  obtain ⟨hfits, n, rfl, hdepth⟩ := fits_of_decoder h hwhole
  exact ⟨hfits.decoder_document hdepth, hfits.textWithin?_render hdepth⟩

/-- The greatest numbers and the least one, an empty relation and a line feed. -/
def extreme : Envelope Json :=
  ⟨[("", "a"), ("next", "\u2028")], some 4294967295, some 18446744073709551615,
    [.object [("k", .ofInt (-9223372036854775808)), ("l", .string "\n")], .null]⟩

def brief : Envelope Json := ⟨[("next", "b")], none, some 2, [.bool true]⟩

theorem extreme_fits : extreme.Fits where
  links := by decide
  currentPage := by rintro n ⟨⟩; decide
  itemsCount := by rintro n ⟨⟩; decide
  whole := List.forall_mem_cons.mpr ⟨.object (List.forall_mem_cons.mpr
    ⟨.integer _ (by decide), List.forall_mem_singleton.mpr (.string "\n")⟩), List.forall_mem_singleton.mpr .null⟩
  inOrder := List.forall_mem_cons.mpr ⟨.object (by decide) (List.forall_mem_cons.mpr
    ⟨.number _, List.forall_mem_singleton.mpr (.string "\n")⟩), List.forall_mem_singleton.mpr .null⟩

/-- The document of the second is an array of the fields in their order, with a relation that stands twice. -/
theorem page_round_trip_extremes :
    text? (decoder json) extreme.toJson.render = some extreme ∧
    text? (decoder json) "[\x7b\"next\":\x7b\"href\":\"a\"\x7d,\"next\":[\"b\"]\x7d,null,2,[[true]]]" = some brief ∧
    text? (decoder json) brief.toJson.render = some brief := by
  have hread : text? (decoder json)
      "[\x7b\"next\":\x7b\"href\":\"a\"\x7d,\"next\":[\"b\"]\x7d,null,2,[[true]]]" = some brief := by
    decide +kernel
  refine ⟨?_, hread, ?_⟩
  · rw [text?_eq]
    exact (page_round_trip.1 extreme 124 extreme_fits (by decide)).2
  · obtain ⟨d, -, hd⟩ := textWithin?_eq_some.mp ((text?_eq _ _).symm.trans hread)
    rw [text?_eq]
    exact (page_round_trip.2.1 _ d brief hd (List.forall_mem_singleton.mpr (.bool true))).2

end Envelope

end CatalogClient
