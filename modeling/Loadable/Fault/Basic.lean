import Loadable.Host.Failure
import Loadable.Path.Key
/-!
What can go wrong, as causes. A fault is an error of the stores themselves and names the key or the
path it is about; a mishap is anything else that cuts a run short, such as a hook that fails.
-/
namespace Loadable

/-- The mishaps a script brings about on purpose. -/
inductive Outcry where
  | runtime
  | value
  | type
  | host
  | exit
  | interrupt
  /-- Of any other class, which settles whether it is a failure. -/
  | other (className : String) (failure : Bool)
  deriving DecidableEq

inductive Mishap where
  | outcry (kind : Outcry) (message : Text)
  | notAPath (typeName : String)
  | notBytes (typeName : String)
  | notCallable (typeName : String)
  | unknownFlavor (quoted : Text)
  | nulInPath
  /-- A host path with a surrogate in it that carries no byte. -/
  | unencodable (stretch : Text.Unencodable)
  /-- Links that lead through links, more of them than are resolved inside one another. -/
  | linksTooDeep
  /-- What the host refused, with the paths that the refused operation was about. -/
  | host (failure : HostFailure) (paths : List Bytes := [])
  | noSuchOperation
  | noSuchRoot
  deriving DecidableEq

namespace Mishap

/-- Exit, interrupt and their like are requests to stop, not failures: nothing that handles failures
sees them. -/
def isFailure : Mishap → Bool
  | outcry .exit _ | outcry .interrupt _ => false
  | outcry (.other _ failure) _ => failure
  | _ => true

def shown : Mishap → Text
  | outcry _ message => message
  | notAPath typeName => "expected str, bytes or os.PathLike object, not " ++ typeName
  | notBytes typeName => "memoryview: a bytes-like object is required, not '" ++ typeName ++ "'"
  | notCallable typeName => "Extension hook must be callable, got " ++ typeName
  | unknownFlavor quoted =>
    ("Unknown path flavor: " : Text) ++ quoted ++ (" (expected 'posix' or 'nt')" : Text)
  | nulInPath => "embedded null byte"
  | unencodable stretch => stretch.reason
  | linksTooDeep => "maximum recursion depth exceeded"
  | host failure paths => failure.writtenAbout paths
  | noSuchOperation => "no such operation"
  | noSuchRoot => "list index out of range"

/-- The message is part of what callers see. -/
def isAnnounced : Mishap → Bool
  | outcry _ _ | notCallable _ | unknownFlavor _ => true
  | _ => false

end Mishap

inductive Refusal where
  | write
  | registerExtension
  deriving DecidableEq

inductive Fault where
  | noSuchFile (key : Key) (cause : Option HostFailure)
  | isDirectory (key : Key) (cause : Option HostFailure)
  | notDirectory (key : Key) (cause : Option HostFailure)
  | denied (key : Key) (cause : HostFailure)
  | hostFailed (key : Key) (cause : HostFailure)
  /-- An insert at a key that is a directory. -/
  | replacesDirectory (key : Key)
  /-- An insert below a key that holds a source or a hook. -/
  | parentNotDirectory (parent key : Key)
  | unencodable (stretch : Text.Unencodable)
  | inNoRoot (path : Text) (roots : List Text)
  | noCandidate (name : Text) (candidates : List Text)
  | hookFailed (key : Key) (hook : Text) (cause : Mishap)
  | unsupported (refused : Refusal) (key : Key)
  | unknownBackend (backend : Option Text)
  /-- A fault a script raises on purpose. -/
  | announced (message : Text)
  deriving DecidableEq

namespace Fault

def ofHost (failure : HostFailure) (key : Key) : Fault :=
  match failure.kind with
  | .absent => noSuchFile key (some failure)
  | .isDirectory => isDirectory key (some failure)
  | .notDirectory => notDirectory key (some failure)
  | .denied => denied key failure
  | .occupied | .other => hostFailed key failure

end Fault

inductive Raised where
  | fault (f : Fault)
  | mishap (m : Mishap)
  deriving DecidableEq

end Loadable
