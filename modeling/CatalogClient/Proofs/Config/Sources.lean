import CatalogClient.Config.Source
import CatalogClient.Proofs.Decimal.Digits
import CatalogClient.Proofs.Json.Fields
import CatalogClient.Proofs.Text.Lines
import CatalogClient.Proofs.Text.Utf8
/-!
A configuration from the environment and one from a file. Where both sources give the same settings they come to the
same configuration or to the same fault, and what neither gives is at its default.
-/

namespace CatalogClient

namespace Config

/-- The settings that the environment can give: the required ones, and some of the others. -/
structure Choice where
  baseUrl : String
  clientId : String
  clientSecret : String
  username : Option {s : String // s ≠ ""}
  password : Option {s : String // s ≠ ""}
  tokenUrl : Option {s : String // s ≠ ""}
  timeoutSeconds : Option (Fin Width.beyond64)
  maxRetries : Option (Fin Width.beyond32)
  tokenBufferSeconds : Option (Fin Width.beyond64)
  rateLimitCalls : Option (Fin Width.beyond32)
  rateLimitPeriodSeconds : Option (Fin Width.beyond64)
  deadlineSeconds : Option (Fin Width.beyond64)
  retryWrites : Option Bool

namespace Choice

variable (c : Choice)

/-- The configuration of a choice. What is left out is as in the plain one. -/
def config : Config :=
  let plain := make c.baseUrl c.clientId c.clientSecret
  { plain with
    username := (c.username.map Subtype.val).or plain.username
    password := (c.password.map Subtype.val).or plain.password
    tokenUrl := (c.tokenUrl.map Subtype.val).or plain.tokenUrl
    timeoutSeconds := (c.timeoutSeconds.map Fin.val).getD plain.timeoutSeconds
    maxRetries := (c.maxRetries.map Fin.val).getD plain.maxRetries
    tokenBufferSeconds := (c.tokenBufferSeconds.map Fin.val).getD plain.tokenBufferSeconds
    rateLimitCalls := (c.rateLimitCalls.map Fin.val).getD plain.rateLimitCalls
    rateLimitPeriodSeconds := (c.rateLimitPeriodSeconds.map Fin.val).getD plain.rateLimitPeriodSeconds
    deadlineSeconds := (c.deadlineSeconds.map Fin.val).or plain.deadlineSeconds
    retryWrites := c.retryWrites.getD plain.retryWrites }

/-- The configuration, or the fault that its check finds. -/
def outcome : Except Failure Config := c.config.validate.map fun _ => c.config

/-- The member for a setting, if there is one. -/
def given {α : Type} (name : String) (o : Option α) (g : α → Json) : List (String × Json) :=
  (o.map fun a => (name, g a)).toList

/-- The members of a document for a choice. -/
def members : List (String × Json) :=
  [("base_url", .string c.baseUrl), ("client_id", .string c.clientId), ("client_secret", .string c.clientSecret)] ++
    given "username" c.username (fun s => .string s.val) ++ given "password" c.password (fun s => .string s.val) ++
    given "token_url" c.tokenUrl (fun s => .string s.val) ++ given "timeout" c.timeoutSeconds (fun n => .ofNat n) ++
    given "max_retries" c.maxRetries (fun n => .ofNat n) ++
    given "token_buffer_seconds" c.tokenBufferSeconds (fun n => .ofNat n) ++
    given "rate_limit_calls" c.rateLimitCalls (fun n => .ofNat n) ++
    given "rate_limit_period_seconds" c.rateLimitPeriodSeconds (fun n => .ofNat n) ++
    given "deadline_seconds" c.deadlineSeconds (fun n => .ofNat n) ++ given "retry_writes" c.retryWrites .bool

/-- A JSON text with the members for a choice and no others, in any order. -/
def InJson (text : String) : Prop :=
  ∃ ms : List (String × Json), Json.Document.read? text = some (Json.object ms).document ∧ ms.Perm c.members

end Choice

end Config

namespace Environment

def SpellsText (s : {s : String // s ≠ ""}) (text : String) : Prop := text = s.val

/-- Blanks may stand around a number. -/
def SpellsNumber {bound : Nat} (n : Fin bound) (text : String) : Prop :=
  ∃ before numeral after, text.toList = before ++ numeral ++ after ∧ (∀ c ∈ before, Text.isBlank c) ∧
    (∀ c ∈ after, Text.isBlank c) ∧ Decimal.Numeral numeral n

/-- A few words say yes, in letters of either case, and every other text says no. -/
def SpellsFlag (b : Bool) (text : String) : Prop :=
  b = true ↔ ∃ word ∈ ["1", "true", "yes", "on"], Text.sameIgnoringCase text word

/-- What an optional variable says of a setting, `Spells a text` where the text is one for the value. -/
inductive Says {α : Type} (Spells : α → String → Prop) : Option String → Option α → Prop
  | given {a : α} {text : String} (h : Spells a text) : Says Spells (some text) (some a)
  | unset : Says Spells none none
  | empty : Says Spells (some "") none

/-- Variables that give the settings of a choice and no others. -/
structure Spells (e : Environment) (c : Config.Choice) : Prop where
  baseUrl : e.find? "PIM_BASE_URL" = some c.baseUrl
  clientId : e.find? "PIM_CLIENT_ID" = some c.clientId
  clientSecret : e.find? "PIM_CLIENT_SECRET" = some c.clientSecret
  username : Says SpellsText (e.find? "PIM_USERNAME") c.username
  password : Says SpellsText (e.find? "PIM_PASSWORD") c.password
  tokenUrl : Says SpellsText (e.find? "PIM_TOKEN_URL") c.tokenUrl
  timeoutSeconds : Says SpellsNumber (e.find? "PIM_TIMEOUT") c.timeoutSeconds
  maxRetries : Says SpellsNumber (e.find? "PIM_MAX_RETRIES") c.maxRetries
  tokenBufferSeconds : Says SpellsNumber (e.find? "PIM_TOKEN_BUFFER_SECONDS") c.tokenBufferSeconds
  rateLimitCalls : Says SpellsNumber (e.find? "PIM_RATE_LIMIT_CALLS") c.rateLimitCalls
  rateLimitPeriodSeconds : Says SpellsNumber (e.find? "PIM_RATE_LIMIT_PERIOD_SECONDS") c.rateLimitPeriodSeconds
  deadlineSeconds : Says SpellsNumber (e.find? "PIM_DEADLINE_SECONDS") c.deadlineSeconds
  retryWrites : Says SpellsFlag (e.find? "PIM_RETRY_WRITES") c.retryWrites

variable {e : Environment} {name : String}

theorem spellsNumber_iff {bound : Nat} {n : Fin bound} {text : String} :
    SpellsNumber n text ↔ Decimal.readBelow bound (Text.trim text) = .ok n := by
  rw [Decimal.readBelow_eq_ok n.pos, Text.trim, String.toList_ofList]
  constructor
  · rintro ⟨before, numeral, after, htext, hbefore, hafter, hnumeral⟩
    have htrim := Text.trimList_padded hbefore hafter hnumeral.ne_nil
      (fun c hc => hnumeral.isBlank_of_mem (List.mem_of_mem_head? hc))
      (fun c hc => hnumeral.isBlank_of_mem (List.mem_of_getLast? hc))
    exact ⟨by rwa [htext, htrim], n.isLt⟩
  · rintro ⟨hnumeral, -⟩
    obtain ⟨before, after, htext, hbefore, hafter⟩ := Text.exists_trimList text.toList
    exact ⟨before, _, after, htext, hbefore, hafter, hnumeral⟩

theorem SpellsNumber.ne_empty {bound : Nat} {n : Fin bound} {text : String} (h : SpellsNumber n text) : text ≠ "" := by
  rintro rfl
  obtain ⟨before, numeral, after, htext, -, -, hnumeral⟩ := h
  have hnil : before ++ numeral ++ after = [] := htext.symm
  rw [List.append_eq_nil_iff, List.append_eq_nil_iff] at hnil
  exact hnumeral.ne_nil hnil.1.2

theorem spellsFlag_iff {b : Bool} {text : String} :
    SpellsFlag b text ↔ b = decide (Text.lowerAscii text ∈ ["1", "true", "yes", "on"]) := by
  have hword : ∀ word ∈ ["1", "true", "yes", "on"],
      (Text.sameIgnoringCase text word = true ↔ Text.lowerAscii text = word) := by
    intro word hword
    have hlower : word.toList.map Char.toLower = word.toList := by
      revert word
      decide
    rw [Text.sameIgnoringCase, hlower, beq_iff_eq, Text.lowerAscii, String.ext_iff, String.toList_ofList]
  have hlist : (∃ word ∈ ["1", "true", "yes", "on"], Text.sameIgnoringCase text word = true) ↔
      Text.lowerAscii text ∈ ["1", "true", "yes", "on"] := by
    constructor
    · rintro ⟨word, hmem, hsame⟩
      exact (hword word hmem).mp hsame ▸ hmem
    · exact fun hmem => ⟨_, hmem, (hword _ hmem).mpr rfl⟩
  rw [SpellsFlag, hlist]
  exact ⟨fun h => Bool.eq_iff_iff.mpr (h.trans decide_eq_true_iff.symm), fun h => h ▸ decide_eq_true_iff⟩

theorem optional?_iff {o : Option {s : String // s ≠ ""}} :
    Says SpellsText (e.find? name) o ↔ e.optional? name = o.map Subtype.val := by
  unfold optional?
  constructor
  · intro h
    generalize e.find? name = found at h
    cases h with
    | @given s text h =>
      obtain rfl : text = s.val := h
      simpa using s.property
    | unset => rfl
    | empty => rfl
  · cases hfound : e.find? name with
    | none =>
      cases o with
      | none => exact fun _ => .unset
      | some s => exact nofun
    | some text =>
      by_cases htext : text = ""
      · subst htext
        cases o with
        | none => exact fun _ => .empty
        | some s => exact nofun
      · rw [Option.filter_some, if_pos (by simpa using htext)]
        cases o with
        | none => exact nofun
        | some s => exact fun h => .given (Option.some.inj h)

theorem number?_iff {bound : Nat} {o : Option (Fin bound)} :
    Says SpellsNumber (e.find? name) o ↔ e.number? bound name = .ok (o.map Fin.val) := by
  unfold number? optional?
  constructor
  · intro h
    generalize e.find? name = found at h
    cases h with
    | @given n text h =>
      rw [Option.filter_some, if_pos (by simpa using h.ne_empty)]
      dsimp only
      rw [spellsNumber_iff.mp h]
      rfl
    | unset => rfl
    | empty => rfl
  · cases hfound : e.find? name with
    | none =>
      cases o with
      | none => exact fun _ => .unset
      | some n => exact nofun
    | some text =>
      by_cases htext : text = ""
      · subst htext
        cases o with
        | none => exact fun _ => .empty
        | some n => exact nofun
      · rw [Option.filter_some, if_pos (by simpa using htext)]
        dsimp only
        split
        · rename_i n hread
          cases o with
          | none => exact nofun
          | some m =>
            intro h
            obtain rfl : n = m.val := Option.some.inj (Except.ok.inj h)
            exact .given (spellsNumber_iff.mpr hread)
        · exact nofun

theorem number?_lt {bound n : Nat} (hbound : 0 < bound) (h : e.number? bound name = .ok (some n)) : n < bound := by
  unfold number? at h
  split at h
  · cases h
  · split at h
    · rename_i hread
      cases h
      exact Decimal.readBelow_lt hbound hread
    · cases h

theorem flag_of_says {o : Option Bool} (h : Says SpellsFlag (e.find? name) o) : e.flag name = o.getD false := by
  unfold flag
  generalize e.find? name = found at h
  cases h with
  | given h => exact (spellsFlag_iff.mp h).symm
  | unset => rfl
  | empty => rfl

theorem config_of_spells {c : Config.Choice} (h : e.Spells c) : e.config = c.outcome := by
  simp only [config, required, h.baseUrl, h.clientId, h.clientSecret, number?_iff.mp h.timeoutSeconds,
    number?_iff.mp h.maxRetries, number?_iff.mp h.tokenBufferSeconds, number?_iff.mp h.rateLimitCalls,
    number?_iff.mp h.rateLimitPeriodSeconds, number?_iff.mp h.deadlineSeconds, optional?_iff.mp h.username,
    optional?_iff.mp h.password, optional?_iff.mp h.tokenUrl, flag_of_says h.retryWrites, bind, Except.bind,
    Config.Choice.outcome, Config.Choice.config, Config.make, Option.or_none]
  generalize Config.validate _ = checked
  cases checked <;> rfl

end Environment

namespace Config

open Setting

variable {c : Choice}

section Given

variable {α : Type} (name : String) (o : Option α) (g : α → Json)

theorem keys_given : ((Choice.given name o g).map (·.1)).Sublist [name] := by
  cases o <;> simp [Choice.given]

theorem whole_given (h : ∀ a, (g a).Whole) : ∀ m ∈ Choice.given name o g, m.2.Whole := by
  cases o <;> simp [Choice.given, h]

end Given

theorem keys_members (c : Choice) : (c.members.map (·.1)).Sublist names := by
  have hsplit : names = ["base_url", "client_id", "client_secret"] ++ ["username"] ++ ["password"] ++ ["token_url"] ++
      ["timeout"] ++ ["max_retries"] ++ ["token_buffer_seconds"] ++ ["rate_limit_calls"] ++
      ["rate_limit_period_seconds"] ++ ["deadline_seconds"] ++ ["retry_writes"] ++ ["backoff_base_ms",
      "backoff_max_ms", "bulk_batch_size", "bulk_concurrency", "user_agent"] := rfl
  rw [hsplit]
  simp only [Choice.members, List.map_append]
  refine List.Sublist.trans ?_ (List.sublist_append_left _ _)
  repeat' apply List.Sublist.append
  all_goals first | exact keys_given .. | exact .refl _

theorem nodup_members (c : Choice) : (c.members.map (·.1)).Nodup := (keys_members c).nodup (by decide)

/-- A value as it is looked up in a document. -/
def ofJson (v : Json) : Setting := ofDocument v.document

theorem ofJson_ofNat {bound : Nat} (hbound : bound ≤ Width.beyond64) (n : Fin bound) :
    ofJson (.ofNat n) = .number n.val := by
  obtain ⟨hrange, hn⟩ := Json.ofNat_integer (Nat.lt_of_lt_of_le n.isLt hbound)
  rw [ofJson, hn, Json.document, ofDocument, Json.ofLiteral?_ofInt hrange]

theorem natBelow?_ofJson {bound : Nat} (hbound : bound ≤ Width.beyond64) (n : Fin bound) :
    natBelow? bound (ofJson (.ofNat n)) = some n.val := by
  rw [ofJson_ofNat hbound, natBelow?, if_pos ⟨Int.natCast_nonneg _, Int.ofNat_lt.mpr n.isLt⟩, Int.toNat_natCast]

section Lookup

variable {α β : Type} {f : Setting → Option β} {g : α → Json} {v : α → β} {find? : String → Option Setting}
  {name : String} {o : Option α}

theorem defaulted_given (h : find? name = (o.map g).map ofJson) (hf : ∀ a, f (ofJson (g a)) = some (v a))
    (default : β) : defaulted find? name f default = some ((o.map v).getD default) := by
  rw [defaulted, h]
  cases o with
  | none => rfl
  | some a => exact hf a

theorem defaulted_nullable (h : find? name = (o.map g).map ofJson)
    (hf : ∀ a, f (ofJson (g a)) = some (v a) ∧ ofJson (g a) ≠ .null) (default : Option β) :
    defaulted find? name (nullable? f) default = some ((o.map v).or default) := by
  rw [defaulted, h]
  cases o with
  | none => rfl
  | some a =>
    obtain ⟨hread, hnull⟩ := hf a
    change nullable? f (ofJson (g a)) = _
    unfold nullable?
    split
    · contradiction
    · rw [hread]
      rfl

theorem defaulted_absent (h : find? name = none) (default : β) : defaulted find? name f default = some default := by
  rw [defaulted, h]

end Lookup

theorem ofSettings?_members {find? : String → Option Setting}
    (h : ∀ name ∈ names, find? name = (Json.member? name c.members).map ofJson) :
    ofSettings? find? = some c.config := by
  have htext (s : {s : String // s ≠ ""}) :
      text? (ofJson (.string s.val)) = some s.val ∧ ofJson (.string s.val) ≠ .null := ⟨rfl, nofun⟩
  have hflag (b : Bool) : flag? (ofJson (.bool b)) = some b := rfl
  have hcount (n : Fin Width.beyond32) : nat32? (ofJson (.ofNat n)) = some n.val := natBelow?_ofJson (by decide) n
  have hnumber (n : Fin Width.beyond64) : nat64? (ofJson (.ofNat n)) = some n.val := natBelow?_ofJson (Nat.le_refl _) n
  have hspan (n : Fin Width.beyond64) : nat64? (ofJson (.ofNat n)) = some n.val ∧ ofJson (.ofNat n) ≠ .null :=
    ⟨hnumber n, ofJson_ofNat (Nat.le_refl _) n ▸ nofun⟩
  simp only [names, List.mem_cons, List.not_mem_nil, or_false, forall_eq_or_imp, forall_eq, Choice.members,
    Choice.given, List.cons_append, List.nil_append, List.append_assoc, Json.member?_cons, Json.member?_append,
    Json.member?_optional, String.reduceEq, ↓reduceIte, Option.or_self, Option.or_none, Option.none_or,
    Option.map_some, Option.map_none] at h
  obtain ⟨hbase, hid, hsecret, husername, hpassword, htoken, htimeout, hretries, hbuffer, hcalls, hperiod, hdeadline,
    hwrites, hbackoff, hmost, hbatch, hconcurrency, hagent⟩ := h
  simp only [ofSettings?, required, hbase, hid, hsecret, defaulted_nullable husername htext,
    defaulted_nullable hpassword htext, defaulted_nullable htoken htext, defaulted_given htimeout hnumber,
    defaulted_given hretries hcount, defaulted_given hbuffer hnumber, defaulted_given hcalls hcount,
    defaulted_given hperiod hnumber, defaulted_nullable hdeadline hspan, defaulted_given hwrites hflag,
    defaulted_absent hbackoff, defaulted_absent hmost, defaulted_absent hbatch, defaulted_absent hconcurrency,
    defaulted_absent hagent, Option.map_id']
  rfl

theorem whole_members (c : Choice) : ∀ m ∈ c.members, m.2.Whole := by
  have htext (s : {s : String // s ≠ ""}) : (Json.string s.val).Whole := .string _
  have hcount (n : Fin Width.beyond32) : (Json.ofNat n).Whole := Json.whole_ofNat (Nat.lt_trans n.isLt (by decide))
  have hnumber (n : Fin Width.beyond64) : (Json.ofNat n).Whole := Json.whole_ofNat n.isLt
  simp only [Choice.members, List.forall_mem_append, and_assoc]
  exact ⟨by simp [Json.Whole.string], whole_given _ _ _ htext, whole_given _ _ _ htext, whole_given _ _ _ htext,
    whole_given _ _ _ hnumber, whole_given _ _ _ hcount, whole_given _ _ _ hnumber, whole_given _ _ _ hcount,
    whole_given _ _ _ hnumber, whole_given _ _ _ hnumber, whole_given _ _ _ .bool⟩

/-- The text that is written for the members is one of those. -/
theorem inJson_render (c : Choice) : c.InJson (Json.object c.members).render :=
  ⟨c.members, Json.Document.read?_render (.object (whole_members c)), .refl _⟩

theorem ofJsonText?_inJson {text : String} (h : c.InJson text) : ofJsonText? text = some c.config := by
  obtain ⟨ms, hread, hms⟩ := h
  have hnodup : (ms.map (·.1)).Nodup := (hms.map _).nodup_iff.mpr (nodup_members c)
  obtain ⟨fs, hfs, -, -, hfind⟩ := Json.fields_document names 126 hnodup
  have hdecoder : decoder Json.Document.maxDepth (Json.object ms).document = some c.config := by
    refine Option.bind_eq_some_iff.mpr ⟨fs, hfs, ofSettings?_members fun name hname => ?_⟩
    rw [hfind name hname, Json.member?_perm hms hnodup, Option.map_map]
    rfl
  exact Option.bind_eq_some_iff.mpr ⟨_, hread, hdecoder⟩

theorem fromFile_inJson {t : FileTree} {place : Option String} {path text : String}
    (hfile : locate t place = .ok (path, .file (Text.Utf8.encode text)))
    (hjson : FilePath.extension? path = some "json") (h : c.InJson text) : fromFile t place = c.outcome := by
  have htext : ofText path text = .ok c.config := by
    rw [ofText, hjson, Option.getD_some, ofJsonText?_inJson h]
    rfl
  simp only [fromFile, hfile, textOf, Text.Utf8.decode?_encode, htext, bind, Except.bind, Choice.outcome]
  cases c.config.validate <;> rfl

/-- The environment and a document that give the same settings agree: both come to the configuration of the choice,
or to the fault that its check finds. -/
theorem sources_agree {e : Environment} {t : FileTree} {place : Option String} {path text : String}
    (he : e.Spells c) (hfile : locate t place = .ok (path, .file (Text.Utf8.encode text)))
    (hjson : FilePath.extension? path = some "json") (h : c.InJson text) :
    e.config = fromFile t place ∧ e.config = c.outcome := by
  have hconfig := Environment.config_of_spells he
  exact ⟨hconfig.trans (fromFile_inJson hfile hjson h).symm, hconfig⟩

theorem sources_agree_shop :
    let e : Environment := ⟨[("PIM_BASE_URL", "https://pim.example.com"), ("PIM_CLIENT_ID", "client"),
      ("PIM_CLIENT_SECRET", "secret"), ("PIM_USERNAME", "admin"), ("PIM_PASSWORD", "pw"), ("PIM_TIMEOUT", " +090\t"),
      ("PIM_DEADLINE_SECONDS", ""), ("PIM_RETRY_WRITES", "Yes")]⟩
    let text := "\x7b\"base_url\":\"https://pim.example.com\",\"client_id\":\"client\",\"client_secret\":\"secret\"," ++
      "\"username\":\"admin\",\"password\":\"pw\",\"timeout\":90,\"retry_writes\":true\x7d"
    let t := FileTree.empty.insert "pim.json" (.file (Text.Utf8.encode text))
    e.config = fromFile t none ∧ ∃ d, e.config = .ok d ∧ d.timeoutSeconds = 90 ∧ d.maxRetries = 3 ∧
      d.deadlineSeconds = none ∧ d.retryWrites = true := by
  intro e text t
  let c : Choice := ⟨"https://pim.example.com", "client", "secret", some ⟨"admin", by decide⟩, some ⟨"pw", by decide⟩,
    none, some 90, none, none, none, none, none, some true⟩
  have hspells : e.Spells c :=
    { baseUrl := rfl
      clientId := rfl
      clientSecret := rfl
      username := .given rfl
      password := .given rfl
      tokenUrl := .unset
      timeoutSeconds := .given ⟨[' '], "+090".toList, ['\t'], rfl, List.all_eq_true.mp rfl,
        List.all_eq_true.mp rfl, .signed ⟨List.cons_ne_nil _ _, List.all_eq_true.mp rfl, rfl⟩⟩
      maxRetries := .unset
      tokenBufferSeconds := .unset
      rateLimitCalls := .unset
      rateLimitPeriodSeconds := .unset
      deadlineSeconds := .empty
      retryWrites := .given (Environment.spellsFlag_iff.mpr (by decide)) }
  have htext : text = (Json.object c.members).render := by decide +kernel
  have hlocate : locate t none = .ok ("pim.json", .file (Text.Utf8.encode text)) := rfl
  obtain ⟨hagree, houtcome⟩ := sources_agree hspells hlocate (by decide) (htext ▸ inJson_render c)
  have hvalid : c.config.validate = .ok () := by decide +kernel
  exact ⟨hagree, c.config, by rw [houtcome, Choice.outcome, hvalid]; rfl, rfl, rfl, rfl, rfl⟩

end Config

end CatalogClient
