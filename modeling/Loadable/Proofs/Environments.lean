import Loadable.Config
import Mathlib.Control.Monad.Basic
/-!
Configurations from environment variables. All that counts of an environment are the backend, the
working directory and the roots that it names. Only a search path without roots asks for more: it
takes the roots of the process.
-/
namespace Loadable

namespace Environment

def given? (env : Environment) (name : Text) : Option Text :=
  (env.get? name).filter (· ≠ [])

/-- The environment asks for a search path and names no roots for it. -/
def LacksRoots (env : Environment) : Prop :=
  env.get? "LOADPATH_BACKEND" = some ("search_path" : Text) ∧ env.searchPaths = []

end Environment

namespace Fields

def single (name : Text) (v : Option Value) : Fields :=
  (v.map fun v => (name, v)).toList

variable {fields others : Fields} {name other : Text} {v : Option Value}

theorem get?_append : get? (fields ++ others) name = (fields.get? name).or (others.get? name) := by
  simp only [get?, List.find?_append, Option.map_or]

theorem get?_single : (single name v).get? other = if other = name then v else none := by
  cases v with
  | none => simp [single, get?]
  | some v =>
    by_cases same : other = name
    · simp [single, get?, same]
    · simp [single, get?, same, Ne.symm same]

theorem name_of_mem_single {field : Text × Value} (member : field ∈ single name v) :
    field.1 = name := by
  rw [single, Option.mem_toList, Option.map_eq_some_iff] at member
  obtain ⟨v, _, rfl⟩ := member
  rfl

theorem unknown_eq_nil (known : ∀ field ∈ fields, field.1 ∈ names) : fields.unknown = [] := by
  have none : (fields.map (·.1)).filter (!names.contains ·) = [] := by
    rw [List.filter_eq_nil_iff]
    intro name member
    obtain ⟨field, inside, rfl⟩ := List.mem_map.1 member
    simpa using known field inside
  rw [unknown, none, List.mergeSort_nil]

end Fields

namespace Config

variable (env : Environment)

def backendOf : Checked BackendName :=
  checkBackend ((env.given? "LOADPATH_BACKEND").map .text)

theorem fieldOf_eq (variableName name : Text) : fieldOf env variableName name =
    .single name ((env.given? variableName).map .text) := by
  unfold fieldOf Environment.given? Fields.single
  cases env.get? variableName with
  | none => rfl
  | some t => cases t <;> simp [Option.filter]

theorem searchPathsField_eq : searchPathsField env = .single "search_paths"
    (if env.searchPaths = [] then none else some (.list (env.searchPaths.map .text))) := by
  unfold searchPathsField
  split <;> rfl

theorem checkItems_texts (index : Nat) (texts : List Text) :
    checkItems index (texts.map .text) = .ok texts := by
  induction texts generalizing index with
  | nil => rfl
  | cons t texts ih => simp [checkItems, checkText, ih]

theorem fieldsOf_eq : fieldsOf env =
    .single "backend" ((env.given? "LOADPATH_BACKEND").map .text) ++
    .single "cwd" ((env.given? "LOADPATH_CWD").map .text) ++
    .single "search_paths"
      (if env.searchPaths = [] then none else some (.list (env.searchPaths.map .text))) := by
  rw [fieldsOf, fieldOf_eq, fieldOf_eq, searchPathsField_eq]

theorem get?_fieldsOf (name : Text) : (fieldsOf env).get? name =
    if name = "backend" then (env.given? "LOADPATH_BACKEND").map .text
    else if name = "cwd" then (env.given? "LOADPATH_CWD").map .text
    else if name = "search_paths" then
      if env.searchPaths = [] then none else some (.list (env.searchPaths.map .text))
    else none := by
  rw [fieldsOf_eq, Fields.get?_append, Fields.get?_append, Fields.get?_single, Fields.get?_single,
    Fields.get?_single]
  by_cases backend : name = "backend"
  · subst backend
    simp +decide
  by_cases cwd : name = "cwd"
  · subst cwd
    simp +decide
  simp only [backend, cwd, if_false, Option.none_or]

theorem unknown_fieldsOf : (fieldsOf env).unknown = [] := by
  refine Fields.unknown_eq_nil fun field member => ?_
  rw [fieldsOf_eq, List.mem_append, List.mem_append] at member
  rcases member with (backend | cwd) | roots
  · rw [Fields.name_of_mem_single backend]
    decide
  · rw [Fields.name_of_mem_single cwd]
    decide
  · rw [Fields.name_of_mem_single roots]
    decide

/-- Only for its backend can what an environment gives be refused before the roots are looked at. -/
theorem ofEnvironment_eq (process : Environment) : ofEnvironment process env = (do
    fillSearchPaths process ⟨← backendOf env, none, env.given? "LOADPATH_CWD", env.searchPaths⟩) := by
  have backend : (fieldsOf env).get? "backend" = (env.given? "LOADPATH_BACKEND").map .text := by
    rw [get?_fieldsOf, if_pos rfl]
  have cwd : (fieldsOf env).get? "cwd" = (env.given? "LOADPATH_CWD").map .text := by
    rw [get?_fieldsOf, if_neg (by decide), if_pos rfl]
  have flavor : (fieldsOf env).get? "flavor" = none := by
    rw [get?_fieldsOf, if_neg (by decide), if_neg (by decide), if_neg (by decide)]
  have roots : checkSearchPaths ((fieldsOf env).get? "search_paths") = .ok env.searchPaths := by
    rw [get?_fieldsOf, if_neg (by decide), if_neg (by decide), if_pos rfl]
    split
    case isTrue empty => rw [empty, checkSearchPaths]
    case isFalse => exact checkItems_texts 0 env.searchPaths
  have directory : checkCwd ((env.given? "LOADPATH_CWD").map .text) = .ok (env.given? "LOADPATH_CWD") := by
    cases env.given? "LOADPATH_CWD" <;> rfl
  simp only [ofEnvironment, ofFields, backend, cwd, flavor, roots, directory, unknown_fieldsOf]
  change _ = backendOf env >>= _
  unfold backendOf
  cases checkBackend ((env.given? "LOADPATH_BACKEND").map .text) with
  | error issues => simp [checkFlavor, Checked.issues, bind, Except.bind]
  | ok backend => rfl

theorem ofName_searchPath {t : Text} :
    BackendName.ofName? t = some .searchPath ↔ t = "search_path" := by
  constructor
  · intro named
    have same := List.find?_some named
    exact (of_decide_eq_true same).symm
  · rintro rfl
    decide

theorem backendOf_searchPath :
    backendOf env = .ok .searchPath ↔ env.get? "LOADPATH_BACKEND" = some ("search_path" : Text) := by
  unfold backendOf Environment.given?
  cases env.get? "LOADPATH_BACKEND" with
  | none => simp [checkBackend]
  | some t =>
    by_cases empty : t = []
    · subst empty
      decide
    · have given : (some t).filter (· ≠ []) = some t := by simp [Option.filter, empty]
      rw [given, Option.some.injEq, ← ofName_searchPath, Option.map_some, checkBackend, checkName]
      cases BackendName.ofName? t <;> simp

section Roots

variable {env}

theorem ofEnvironment_rooted (process : Environment) (rooted : ¬env.LacksRoots) :
    ofEnvironment process env = (backendOf env).map fun backend =>
      ⟨backend, none, env.given? "LOADPATH_CWD", env.searchPaths⟩ := by
  rw [ofEnvironment_eq]
  cases named : backendOf env with
  | error issues => rfl
  | ok backend =>
    have filled : ¬(backend = .searchPath ∧ env.searchPaths = []) := by
      rintro ⟨rfl, empty⟩
      exact rooted ⟨(backendOf_searchPath env).1 named, empty⟩
    exact if_neg filled

theorem ofEnvironment_lacksRoots (process : Environment) (lacks : env.LacksRoots) :
    ofEnvironment process env =
      if process.searchPaths = [] then .error [⟨[], .noRoots⟩]
      else .ok ⟨.searchPath, none, env.given? "LOADPATH_CWD", process.searchPaths⟩ := by
  obtain ⟨named, empty⟩ := lacks
  rw [ofEnvironment_eq, (backendOf_searchPath env).2 named, empty]
  rfl

end Roots

/-- A configuration from an environment depends on the process exactly if the environment asks for a
search path and names no roots. Then the roots are those of the process; without any, the
configuration is refused. -/
theorem explicit_environment (env : Environment) :
    ((∀ process other, ofEnvironment process env = ofEnvironment other env) ↔ ¬env.LacksRoots) ∧
    (¬env.LacksRoots → ∀ process, ofEnvironment process env = (backendOf env).map fun backend =>
      ⟨backend, none, env.given? "LOADPATH_CWD", env.searchPaths⟩) ∧
    (env.LacksRoots → ∀ process, ofEnvironment process env =
      if process.searchPaths = [] then .error [⟨[], .noRoots⟩]
      else .ok ⟨.searchPath, none, env.given? "LOADPATH_CWD", process.searchPaths⟩) := by
  refine ⟨⟨?_, ?_⟩, fun rooted process => ofEnvironment_rooted process rooted,
    fun lacks process => ofEnvironment_lacksRoots process lacks⟩
  · intro same lacks
    have answers := same [] [("RUBYLIB", "/a")]
    rw [ofEnvironment_lacksRoots _ lacks, ofEnvironment_lacksRoots _ lacks, if_pos (by decide),
      if_neg (by decide)] at answers
    cases answers
  · intro rooted process other
    rw [ofEnvironment_rooted process rooted, ofEnvironment_rooted other rooted]

theorem explicit_environment_roots :
    let env : Environment := [("LOADPATH_BACKEND", "search_path"), ("RUBYLIB", ":/r::/s")]
    ¬env.LacksRoots ∧ ∀ process, ofEnvironment process env =
      .ok ⟨.searchPath, none, none, ["/r", "/s"]⟩ := by
  intro env
  have rooted : ¬env.LacksRoots := fun lacks => absurd lacks.2 (by decide)
  obtain ⟨_, own, _⟩ := explicit_environment env
  refine ⟨rooted, fun process => (own rooted process).trans ?_⟩
  decide

/-- The roots of the process get into a configuration whose environment has none. -/
theorem process_roots_leak :
    let env : Environment := [("LOADPATH_BACKEND", "search_path")]
    ofEnvironment [("RUBYLIB", "/a")] env = .ok ⟨.searchPath, none, none, ["/a"]⟩ ∧
      ofEnvironment [] env = .error [⟨[], .noRoots⟩] := by
  intro env
  have lacks : env.LacksRoots := ⟨by decide, by decide⟩
  rw [ofEnvironment_lacksRoots _ lacks, ofEnvironment_lacksRoots _ lacks]
  decide

end Config

end Loadable
