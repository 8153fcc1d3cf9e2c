import Loadable.Path.Given
import Loadable.Session.World
/-!
The four kinds of store. A store is fixed when it is built; what changes is the world it works on.
-/
namespace Loadable

inductive Backend where
  /-- Sources and hooks in memory only. -/
  | memory
  /-- Every path on the host; only hooks in memory. -/
  | native
  /-- The reserved directory in memory, all else on the host. -/
  | hybrid (nativeCwd : Text)
  /-- Host directories in order; the first that holds a path serves it. -/
  | searchPath (roots : List Text)
  deriving DecidableEq

structure Store where
  flavor : Flavor
  cwd : Text
  backend : Backend
  deriving DecidableEq

namespace Backend

def name : Backend → String
  | memory => "memory"
  | native => "native"
  | hybrid _ => "hybrid"
  | searchPath _ => "search_path"

def typeName : Backend → String
  | memory => "MemoryFileSystem"
  | native => "NativeFileSystem"
  | hybrid _ => "HybridFileSystem"
  | searchPath _ => "SearchPathFileSystem"

end Backend

namespace Store

def name (s : Store) : Text :=
  Text.ofString s.backend.name

def description (s : Store) : Description :=
  ⟨s.backend.name, s.backend.typeName, s.cwd, s.flavor⟩

def memoryPart (s : Store) : Store :=
  ⟨s.flavor, s.flavor.loadRoot, .memory⟩

/-- The store of a host directory: the host part of a hybrid store, or one root of a search path. -/
def nativeAt (s : Store) (cwd : Text) : Store :=
  ⟨s.flavor, cwd, .native⟩

def log (s : Store) (level : LogLevel) (source : LogSource) (message : Text) : Act Unit :=
  Act.log level source (some s.name) message

def ownKey (s : Store) (path : GivenPath) : Except Raised Key :=
  match path.asText with
  | .error mishap => .error (.mishap mishap)
  | .ok text =>
    match s.flavor.resolve text s.cwd with
    | .error stretch => .error (.fault (.unencodable stretch))
    | .ok key => .ok key

end Store

namespace Description

def written (d : Description) : Text :=
  d.typeName ++ ("(cwd=" : Text) ++ d.cwd.quoted ++ (", flavor=" : Text) ++
    (Text.ofString d.flavor.name).quoted ++ (")" : Text)

end Description

end Loadable
