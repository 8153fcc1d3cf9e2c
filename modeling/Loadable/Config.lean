import Loadable.Path.Flavor
import Loadable.Value
/-!
Configurations: which kind of store is built, from what. A configuration is checked field by field,
and everything that is wrong with it is reported at once.
-/
namespace Loadable

abbrev Environment := List (Text × Text)

namespace Environment

def get? (env : Environment) (name : Text) : Option Text :=
  (env.find? (·.1 = name)).map (·.2)

def searchPaths (env : Environment) : List Text :=
  (splitAt (· = colon) ((env.get? "RUBYLIB").getD [])).filter (· ≠ [])

end Environment

inductive BackendName where
  | memory
  | native
  | hybrid
  | searchPath
  deriving DecidableEq

namespace BackendName

def name : BackendName → String
  | memory => "memory"
  | native => "native"
  | hybrid => "hybrid"
  | searchPath => "search_path"

def ofName? (t : Text) : Option BackendName :=
  [memory, native, hybrid, searchPath].find? fun b => Text.ofString b.name = t

end BackendName

structure Config where
  backend : BackendName := .hybrid
  /-- Without a flavor, the host's is meant. -/
  flavor : Option Flavor := none
  /-- Without a working directory, the store's own default is meant. -/
  cwd : Option Text := none
  searchPaths : List Text := []
  deriving DecidableEq

inductive IssuePlace where
  | field (name : Text)
  | item (index : Nat)
  deriving DecidableEq

inductive IssueKind where
  | noBackend
  | noFlavor
  | noText
  | brokenText
  | noList
  | unknownField
  | noRoots
  deriving DecidableEq

namespace IssueKind

def typeName : IssueKind → String
  | noBackend | noFlavor => "literal_error"
  | noText => "string_type"
  | brokenText => "string_unicode"
  | noList => "list_type"
  | unknownField => "extra_forbidden"
  | noRoots => "value_error"

def message : IssueKind → String
  | noBackend => "Input should be 'memory', 'native', 'hybrid' or 'search_path'"
  | noFlavor => "Input should be 'posix' or 'nt'"
  | noText => "Input should be a valid string"
  | brokenText =>
    "Input should be a valid string, unable to parse raw data as a unicode string"
  | noList => "Input should be a valid list"
  | unknownField => "Extra inputs are not permitted"
  | noRoots => "Value error, The 'search_path' backend needs at least one root " ++
      "(pass search_paths or set $RUBYLIB)."

end IssueKind

structure Issue where
  place : List IssuePlace
  kind : IssueKind
  deriving DecidableEq

abbrev Fields := List (Text × Value)

namespace Fields

def get? (fields : Fields) (name : Text) : Option Value :=
  (fields.find? (·.1 = name)).map (·.2)

def names : List Text :=
  ["backend", "flavor", "cwd", "search_paths"].map Text.ofString

def inOrder (a b : Text) : Bool :=
  !(b.map CodePoint.toNat < a.map CodePoint.toNat)

def unknown (fields : Fields) : List Text :=
  ((fields.map (·.1)).filter (!names.contains ·)).mergeSort inOrder

end Fields

abbrev Checked := Except (List Issue)

namespace Checked

variable {α : Type}

def issues : Checked α → List Issue
  | .ok _ => []
  | .error issues => issues

end Checked

namespace Config

def checkText (place : List IssuePlace) : Value → Checked Text
  | .text t => .ok t
  | _ => .error [⟨place, .noText⟩]

/-- One of several names, or an issue of the given kind. A text with surrogates cannot even be
compared with the names. -/
def checkName {α : Type} (field : Text) (kind : IssueKind) (ofName? : Text → Option α) :
    Value → Checked α
  | .text t =>
    match ofName? t with
    | some a => .ok a
    | none => .error [⟨[.field field], if t.any CodePoint.isSurrogate then .brokenText else kind⟩]
  | _ => .error [⟨[.field field], kind⟩]

def checkBackend : Option Value → Checked BackendName
  | none => .ok .hybrid
  | some v => checkName "backend" .noBackend BackendName.ofName? v

def checkFlavor : Option Value → Checked (Option Flavor)
  | none | some .null => .ok none
  | some v => (checkName "flavor" .noFlavor Flavor.ofName? v).map some

def checkCwd : Option Value → Checked (Option Text)
  | none | some .null => .ok none
  | some v => (checkText [.field "cwd"] v).map some

def checkItems (index : Nat) : List Value → Checked (List Text)
  | [] => .ok []
  | v :: vs =>
    match checkText [.field "search_paths", .item index] v, checkItems (index + 1) vs with
    | .ok t, .ok ts => .ok (t :: ts)
    | item, items => .error (item.issues ++ items.issues)

def checkSearchPaths : Option Value → Checked (List Text)
  | none => .ok []
  | some (.list items) => checkItems 0 items
  | some _ => .error [⟨[.field "search_paths"], .noList⟩]

/-- A search path without roots of its own takes those of the process environment. -/
def fillSearchPaths (process : Environment) (c : Config) : Checked Config :=
  if c.backend = .searchPath ∧ c.searchPaths = [] then
    if process.searchPaths = [] then .error [⟨[], .noRoots⟩]
    else .ok { c with searchPaths := process.searchPaths }
  else .ok c

/-- Checks fields in order, then the names of the others; a configuration without roots is refused
only if nothing else is wrong with it. A surrogate in a name puts an end to all checking, and is all
that is reported. -/
def ofFields (process : Environment) (fields : Fields) : Checked Config :=
  let backend := checkBackend (fields.get? "backend")
  let flavor := checkFlavor (fields.get? "flavor")
  let cwd := checkCwd (fields.get? "cwd")
  let searchPaths := checkSearchPaths (fields.get? "search_paths")
  let unknown : List Issue := fields.unknown.map fun name => ⟨[.field name], .unknownField⟩
  if fields.unknown.any (·.any CodePoint.isSurrogate) then .error [⟨[], .brokenText⟩]
  else match backend, flavor, cwd, searchPaths, unknown with
    | .ok backend, .ok flavor, .ok cwd, .ok searchPaths, [] =>
      fillSearchPaths process ⟨backend, flavor, cwd, searchPaths⟩
    | _, _, _, _, _ =>
      .error (backend.issues ++ flavor.issues ++ cwd.issues ++ searchPaths.issues ++ unknown)

def fieldOf (env : Environment) (variableName name : Text) : Fields :=
  match env.get? variableName with
  | some (c :: t) => [(name, .text (c :: t))]
  | _ => []

def searchPathsField (env : Environment) : Fields :=
  if env.searchPaths = [] then []
  else [(Text.ofString "search_paths", .list (env.searchPaths.map .text))]

def fieldsOf (env : Environment) : Fields :=
  fieldOf env "LOADPATH_BACKEND" "backend" ++ fieldOf env "LOADPATH_CWD" "cwd" ++
    searchPathsField env

def ofEnvironment (process env : Environment) : Checked Config :=
  ofFields process (fieldsOf env)

end Config

end Loadable
