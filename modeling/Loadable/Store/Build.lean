import Loadable.Config
import Loadable.Interpreter
/-!
Building a store: of a given kind, or of the kind that a configuration names.
-/
namespace Loadable

structure StoreChoice where
  backend : Option Text := some "hybrid"
  flavor : Option Value := none
  cwd : Option GivenPath := none
  roots : List GivenPath := []

def Config.choice (c : Config) : StoreChoice where
  backend := some c.backend.name
  flavor := c.flavor.map fun f => .text (Text.ofString f.name)
  cwd := c.cwd.map .text
  roots := c.searchPaths.map .text

namespace Store

def processCwd : Act Text := do
  match (← Act.world).host.cwdPath with
  | .ok path => return Text.decode path
  | .error failure => Act.raise (.mishap (.host failure))

def textOr (path : Option GivenPath) (default : Act Text) : Act Text :=
  match path with
  | some path => Act.ofMishap path.asText
  | none => default

def buildMemory (cwd : Option GivenPath) (flavor : Option Value) : Act Store := do
  let flavor ← Act.ofMishap (Flavor.ofGiven flavor)
  return ⟨flavor, ← textOr cwd (return flavor.loadRoot), .memory⟩

/-- The default working directory is the process's at this moment. -/
def buildNative (cwd : Option GivenPath) (flavor : Option Value) : Act Store := do
  let flavor ← Act.ofMishap (Flavor.ofGiven flavor)
  return ⟨flavor, ← textOr cwd processCwd, .native⟩

def buildHybrid (cwd : Option GivenPath) (flavor : Option Value) (nativeCwd : Option GivenPath) :
    Act Store := do
  let flavor ← Act.ofMishap (Flavor.ofGiven flavor)
  let cwd ← textOr cwd (return flavor.loadRoot)
  let nativeCwd ← textOr nativeCwd processCwd
  let s : Store := ⟨flavor, cwd, .hybrid nativeCwd⟩
  s.log .info .hybrid
    (("Hybrid filesystem ready: memory at " : Text) ++ flavor.loadRoot ++
      (", native elsewhere" : Text))
  return s

def absoluteRoots (processCwd : Text) : List GivenPath → Except Mishap (List Text)
  | [] => .ok []
  | root :: roots => do
    let text ← root.asText
    return absolutePath processCwd text :: (← absoluteRoots processCwd roots)

def buildSearchPath (roots : List GivenPath) (flavor : Option Value) : Act Store := do
  let flavor ← Act.ofMishap (Flavor.ofGiven flavor)
  let processCwd ← processCwd
  let roots ← Act.ofMishap (absoluteRoots processCwd roots)
  let s : Store := ⟨flavor, roots.head?.getD processCwd, .searchPath roots⟩
  s.log .info .searchPath
    (("Search path filesystem ready with " : Text) ++ Text.ofNat roots.length ++ (" roots" : Text))
  return s

def buildBackend (choice : StoreChoice) : Act Store :=
  match choice.backend.bind BackendName.ofName? with
  | some .memory => buildMemory choice.cwd choice.flavor
  | some .native => buildNative choice.cwd choice.flavor
  | some .hybrid => buildHybrid choice.cwd choice.flavor none
  | some .searchPath => buildSearchPath choice.roots choice.flavor
  | none => Act.raise (.fault (.unknownBackend choice.backend))

def build (choice : StoreChoice) : Act Store := do
  let s ← buildBackend choice
  s.log .info .stores (("Created " : Text) ++ s.description.written)
  return s

end Store

end Loadable
