import CatalogClient.Proofs.Config.Sources
/-!
What an environment comes to, and when it goes before a file: exactly where it gives a configuration that passes the
check. Any fault of the environment, also of one in which nothing that is required is missing, is passed over for a
file.
-/

namespace CatalogClient

namespace Environment

/-- The variables that have to be set. -/
def requiredNames : List String := ["PIM_BASE_URL", "PIM_CLIENT_ID", "PIM_CLIENT_SECRET"]

/-- The variables for numbers, with their bounds. -/
def numberNames : List (String × Nat) :=
  [("PIM_TIMEOUT", Width.beyond64), ("PIM_MAX_RETRIES", Width.beyond32), ("PIM_TOKEN_BUFFER_SECONDS", Width.beyond64),
    ("PIM_RATE_LIMIT_CALLS", Width.beyond32), ("PIM_RATE_LIMIT_PERIOD_SECONDS", Width.beyond64),
    ("PIM_DEADLINE_SECONDS", Width.beyond64)]

def Complete (e : Environment) : Prop := ∀ name ∈ requiredNames, (e.find? name).isSome

instance : DecidablePred Complete := fun e =>
  inferInstanceAs (Decidable (∀ name ∈ requiredNames, (e.find? name).isSome))

/-- All variables can be read, and the settings that they give pass the check. -/
def Sound (e : Environment) : Prop := ∃ c : Config.Choice, e.Spells c ∧ c.config.check = .ok ()

/-- The message for something that is wrong with an environment. -/
inductive Rejects (e : Environment) : String → Prop
  | missing {name : String} (hname : name ∈ requiredNames) (h : e.find? name = none) :
    e.Rejects ("missing required environment variable: " ++ name)
  | number {name text : String} {bound : Nat} {fault : Decimal.IntegerFault} (hname : (name, bound) ∈ numberNames)
    (h : e.find? name = some text) (htext : text ≠ "")
    (hfault : Decimal.readBelow bound (Text.trim text) = .error fault) :
    e.Rejects ("invalid value for " ++ name ++ ": " ++ fault.message)
  | check {c : Config.Choice} {fault : ConfigFault} (h : e.Spells c) (hfault : c.config.check = .error fault) :
    e.Rejects fault.message

/-- What an environment can come to. -/
inductive Verdict (e : Environment) : Except Failure Config → Prop
  | ok {c : Config.Choice} (h : e.Spells c) (hcheck : c.config.check = .ok ()) : e.Verdict (.ok c.config)
  | error {message : String} (h : e.Rejects message) : e.Verdict (.error (.config message))

variable {e : Environment} {name : String}

theorem required_eq_ok {value : String} (h : e.find? name = some value) : e.required name = .ok value := by
  rw [required, h]

theorem Verdict.required {f : String → Except Failure Config} (hname : name ∈ requiredNames)
    (h : ∀ value, e.find? name = some value → e.Verdict (f value)) : e.Verdict (e.required name >>= f) := by
  cases hfind : e.find? name with
  | none =>
    rw [Environment.required, hfind]
    exact .error (.missing hname hfind)
  | some value =>
    rw [required_eq_ok hfind]
    exact h value hfind

theorem Verdict.number {bound : Nat} {f : Option Nat → Except Failure Config} (hname : (name, bound) ∈ numberNames)
    (hbound : 0 < bound)
    (h : ∀ o : Option (Fin bound), Says SpellsNumber (e.find? name) o → e.Verdict (f (o.map Fin.val))) :
    e.Verdict (e.number? bound name >>= f) := by
  cases hread : e.number? bound name with
  | error fault =>
    unfold number? optional? at hread
    split at hread
    · cases hread
    · rename_i text htext
      obtain ⟨hfind, hne⟩ := Option.filter_eq_some_iff.mp htext
      split at hread
      · cases hread
      · rename_i hfault
        cases hread
        exact .error (.number hname hfind (by simpa using hne) hfault)
  | ok o =>
    cases o with
    | none => exact h none (number?_iff.mpr hread)
    | some n => exact h (some ⟨n, number?_lt hbound hread⟩) (number?_iff.mpr hread)

theorem exists_says_text (e : Environment) (name : String) : ∃ o, Says SpellsText (e.find? name) o := by
  cases e.find? name with
  | none => exact ⟨none, .unset⟩
  | some text =>
    by_cases htext : text = ""
    · subst htext
      exact ⟨none, .empty⟩
    · exact ⟨some ⟨text, htext⟩, .given rfl⟩

theorem exists_says_flag (e : Environment) (name : String) : ∃ o, Says SpellsFlag (e.find? name) o := by
  cases e.find? name with
  | none => exact ⟨none, .unset⟩
  | some text => exact ⟨some _, .given (spellsFlag_iff.mpr rfl)⟩

theorem Spells.verdict {c : Config.Choice} (h : e.Spells c) : e.Verdict e.config := by
  rw [config_of_spells h, Config.Choice.outcome, Config.validate]
  cases hcheck : c.config.check with
  | ok => exact .ok h hcheck
  | error fault => exact .error (.check h hcheck)

/-- The variables are read one behind the other, and the first fault is the answer. -/
theorem verdict_config (e : Environment) : e.Verdict e.config := by
  obtain ⟨username, husername⟩ := exists_says_text e "PIM_USERNAME"
  obtain ⟨password, hpassword⟩ := exists_says_text e "PIM_PASSWORD"
  obtain ⟨token, htoken⟩ := exists_says_text e "PIM_TOKEN_URL"
  obtain ⟨writes, hwrites⟩ := exists_says_flag e "PIM_RETRY_WRITES"
  unfold config
  refine .required (by decide) fun base hbase => ?_
  refine .required (by decide) fun id hid => ?_
  refine .required (by decide) fun secret hsecret => ?_
  refine .number (by decide) (by decide) fun timeout htimeout => ?_
  refine .number (by decide) (by decide) fun retries hretries => ?_
  refine .number (by decide) (by decide) fun buffer hbuffer => ?_
  refine .number (by decide) (by decide) fun calls hcalls => ?_
  refine .number (by decide) (by decide) fun period hperiod => ?_
  refine .number (by decide) (by decide) fun deadline hdeadline => ?_
  let c : Config.Choice := ⟨base, id, secret, username, password, token, timeout, retries, buffer, calls, period,
    deadline, writes⟩
  have hspells : e.Spells c := ⟨hbase, hid, hsecret, husername, hpassword, htoken, htimeout, hretries, hbuffer, hcalls,
    hperiod, hdeadline, hwrites⟩
  have hverdict := hspells.verdict
  rw [config, required_eq_ok hbase, required_eq_ok hid, required_eq_ok hsecret, number?_iff.mp htimeout,
    number?_iff.mp hretries, number?_iff.mp hbuffer, number?_iff.mp hcalls, number?_iff.mp hperiod,
    number?_iff.mp hdeadline] at hverdict
  exact hverdict

theorem Sound.complete (h : e.Sound) : e.Complete := by
  obtain ⟨c, hc, -⟩ := h
  simp [Complete, requiredNames, hc.baseUrl, hc.clientId, hc.clientSecret]

theorem config_of_sound (h : e.Sound) : ∃ c : Config.Choice, e.Spells c ∧ e.config = .ok c.config := by
  obtain ⟨c, hc, hcheck⟩ := h
  refine ⟨c, hc, ?_⟩
  rw [config_of_spells hc, Config.Choice.outcome, Config.validate, hcheck]
  rfl

theorem config_of_not_sound (h : ¬ e.Sound) : ∃ message, e.config = .error (.config message) ∧ e.Rejects message := by
  have hverdict := e.verdict_config
  generalize e.config = result at hverdict
  cases hverdict with
  | ok hc hcheck => exact absurd ⟨_, hc, hcheck⟩ h
  | error hrejects => exact ⟨_, rfl, hrejects⟩

end Environment

namespace Config

open Environment

/-- The environment counts exactly where all of it can be read and its settings pass the check. The message for any
other environment is lost behind the file, even where what is required is set. -/
theorem load_precedence (e : Environment) (t : FileTree) :
    (¬ e.Complete → load e t = fromFile t none) ∧
      (e.Complete → e.Sound → ∃ c : Choice, e.Spells c ∧ e.config = .ok c.config ∧ load e t = e.config) ∧
      (e.Complete → ¬ e.Sound →
        ∃ message, e.config = .error (.config message) ∧ e.Rejects message ∧ load e t = fromFile t none) ∧
      (load e t = e.config ↔ e.Sound ∨ fromFile t none = e.config) := by
  have hsound (h : e.Sound) : ∃ c : Choice, e.Spells c ∧ e.config = .ok c.config ∧ load e t = e.config := by
    obtain ⟨c, hc, hconfig⟩ := config_of_sound h
    exact ⟨c, hc, hconfig, by rw [load, hconfig]⟩
  have hunsound (h : ¬ e.Sound) :
      ∃ message, e.config = .error (.config message) ∧ e.Rejects message ∧ load e t = fromFile t none := by
    obtain ⟨message, hconfig, hrejects⟩ := config_of_not_sound h
    exact ⟨message, hconfig, hrejects, by rw [load, hconfig]⟩
  have hfile (h : ¬ e.Sound) : load e t = fromFile t none := by
    obtain ⟨_, -, -, hload⟩ := hunsound h
    exact hload
  refine ⟨fun h => hfile fun hs => h hs.complete, fun _ => hsound, fun _ => hunsound, ?_⟩
  by_cases h : e.Sound
  · obtain ⟨_, -, -, hload⟩ := hsound h
    exact iff_of_true hload (.inl h)
  · rw [hfile h, or_iff_right h]

/-- A variable that is no number lets the client go by the file, with the credentials of another client. -/
theorem load_hides_fault :
    let e : Environment := ⟨[("PIM_BASE_URL", "https://pim.example.com"), ("PIM_CLIENT_ID", "client"),
      ("PIM_CLIENT_SECRET", "secret"), ("PIM_TIMEOUT", "soon")]⟩
    let text := "\x7b\"base_url\":\"https://other.example.com\",\"client_id\":\"c\",\"client_secret\":\"s\"\x7d"
    let t := FileTree.empty.insert "pim.json" (.file (Text.Utf8.encode text))
    e.Complete ∧ e.config = .error (.config "invalid value for PIM_TIMEOUT: invalid digit found in string") ∧
      load e t = .ok (make "https://other.example.com" "c" "s") ∧ load e t ≠ e.config := by
  intro e text t
  have hconfig : e.config = .error (.config "invalid value for PIM_TIMEOUT: invalid digit found in string") := by
    decide +kernel
  have hload : load e t = .ok (make "https://other.example.com" "c" "s") := by decide +kernel
  exact ⟨by decide, hconfig, hload, by rw [hload, hconfig]; exact nofun⟩

end Config

end CatalogClient
