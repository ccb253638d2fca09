import CatalogClient.Config.Environment
import CatalogClient.Config.FileTree
import CatalogClient.Config.Settings
import CatalogClient.Text.Utf8
/-!
Where a configuration comes from: the environment, a file that is named, or a file in one of the
standard places.
-/

namespace CatalogClient.Config

/-- The standard places of a configuration file, the first one preferred. -/
def standardFiles : List String := ["pim.toml", "pim.json", "config/pim.toml"]

/-- The file in the first standard place that there is. -/
def standardFile? (t : FileTree) : Option String := standardFiles.find? fun p => (t.find? p).isSome

def unreadable : String := "not a document of settings"

/-- The configuration in a file's text; the name of the file tells the format. -/
def ofText (path text : String) : Except Failure Config :=
  match (FilePath.extension? path).getD "toml" with
  | "toml" =>
    match ofTomlText? text with
    | some c => .ok c
    | none => .error (.config ("invalid TOML format: " ++ unreadable))
  | "json" =>
    match ofJsonText? text with
    | some c => .ok c
    | none => .error (.config ("invalid JSON format: " ++ unreadable))
  | other => .error (.config ("unsupported config format: " ++ other))

def textOf (entry : FileEntry) : Except Failure String :=
  match entry with
  | .directory => .error (.config "failed to read config file: is a directory")
  | .file data =>
    match Text.Utf8.decode? data with
    | some text => .ok text
    | none => .error (.config "failed to read config file: not a text")

def locate (t : FileTree) (path : Option String) : Except Failure (String × FileEntry) :=
  match path with
  | some p =>
    match t.find? p with
    | some entry => .ok (p, entry)
    | none => .error (.config ("config file not found: " ++ p))
  | none =>
    match standardFiles.findSome? fun p => (t.find? p).map fun entry => (p, entry) with
    | some found => .ok found
    | none => .error (.config "no config file found in any of the standard locations")

def fromFile (t : FileTree) (path : Option String) : Except Failure Config := do
  let (path, entry) ← locate t path
  let c ← ofText path (← textOf entry)
  c.validate
  return c

/-- The configuration from the environment, or from a file where the environment gives none. -/
def load (e : Environment) (t : FileTree) : Except Failure Config :=
  match e.config with
  | .ok c => .ok c
  | .error _ => fromFile t none

end CatalogClient.Config
