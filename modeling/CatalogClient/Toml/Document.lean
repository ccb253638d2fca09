import CatalogClient.Toml.Value
/-!
TOML documents: tables of keys and values, line by line. A key is defined once, and no key is a
value and a table at the same time. Kept are the keys of the top table.
-/

namespace CatalogClient.Toml

/-- What a path of keys has been defined as. -/
inductive Definition
  | value
  /-- A table under a header of its own. -/
  | headed
  /-- A table that a longer header implies. -/
  | implied
  /-- A table that a dotted key implies. -/
  | dotted
  /-- A list of tables, each under a doubled header. -/
  | listed
  deriving DecidableEq, Repr

structure Builder where
  defined : List (List String × Definition)
  /-- The table the next keys belong to. -/
  current : List String
  top : List (String × Value)

namespace Builder

def start : Builder := ⟨[], [], []⟩

def find? (b : Builder) (path : List String) : Option Definition :=
  (b.defined.find? (·.1 = path)).map (·.2)

def define (b : Builder) (path : List String) (d : Definition) : Builder :=
  { b with defined := (path, d) :: b.defined.filter (·.1 ≠ path) }

def ancestors (path : List String) : List (List String) :=
  (List.range path.length).tail.map path.take

/-- A key with a value in the current table. -/
def addValue? (b : Builder) (key : List String) (v : Value) : Option Builder := do
  let b ← (ancestors key).foldlM (fun b part =>
    let path := b.current ++ part
    match b.find? path with
    | none => some (b.define path .dotted)
    | some .dotted => some b
    | some _ => none) b
  let path := b.current ++ key
  if (b.find? path).isSome then none
  else
    let b := b.define path .value
    match path with
    | [k] => some { b with top := b.top ++ [(k, v)] }
    | _ => some b

def addAncestors? (b : Builder) (path : List String) : Option Builder :=
  (ancestors path).foldlM (fun b part =>
    match b.find? part with
    | none => some (b.define part .implied)
    | some .value => none
    | some _ => some b) b

def addHeader? (b : Builder) (path : List String) : Option Builder := do
  let b ← b.addAncestors? path
  match b.find? path with
  | none | some .implied => return { b.define path .headed with current := path }
  | some _ => none

/-- A further table of a list: what was defined below the earlier one does not count for it. -/
def addListed? (b : Builder) (path : List String) : Option Builder := do
  let b ← b.addAncestors? path
  match b.find? path with
  | none => return { b.define path .listed with current := path }
  | some .listed =>
    return { b with
      current := path
      defined := b.defined.filter fun (p, _) => ! (path.isPrefixOf p && path.length < p.length) }
  | some _ => none

def result (b : Builder) : List (String × Value) :=
  b.top ++ b.defined.filterMap fun (path, d) =>
    match path, d with
    | [k], .headed | [k], .implied | [k], .dotted | [k], .listed => some (k, .other)
    | _, _ => none

end Builder

/-- The rest of a line behind its key and value or header: blanks and a comment. -/
def endLine? (cs : List Char) : Option (List Char) := do
  let cs ← skipComment (skip cs)
  if cs = [] then some [] else lineBreak? cs

def readLine? (b : Builder) (cs : List Char) : Option (Builder × List Char) := do
  match cs with
  | '[' :: '[' :: cs =>
    let (path, cs) ← readKey (cs.length + 1) cs
    match cs with
    | ']' :: ']' :: cs => return (← b.addListed? path, cs)
    | _ => none
  | '[' :: cs =>
    let (path, cs) ← readKey (cs.length + 1) cs
    match cs with
    | ']' :: cs => return (← b.addHeader? path, cs)
    | _ => none
  | cs =>
    let (key, cs) ← readKey (cs.length + 1) cs
    match cs with
    | '=' :: cs =>
      let (v, cs) ← readValue (2 * cs.length + 2) (skip cs)
      return (← b.addValue? key v, cs)
    | _ => none

def readLines : Nat → Builder → List Char → Option Builder
  | 0, _, _ => none
  | fuel + 1, b, cs =>
    match skip cs with
    | [] => some b
    | c :: cs =>
      if c = '#' ∨ (lineBreak? (c :: cs)).isSome then (endLine? (c :: cs)).bind (readLines fuel b)
      else do
        let (b, cs) ← readLine? b (c :: cs)
        readLines fuel b (← endLine? cs)

def read? (s : String) : Option (List (String × Value)) :=
  let cs := match s.toList with
    | '\uFEFF' :: cs => cs
    | cs => cs
  (readLines (cs.length + 1) .start cs).map Builder.result

end CatalogClient.Toml
