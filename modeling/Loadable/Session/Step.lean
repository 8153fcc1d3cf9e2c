import Loadable.Store.Build
/-!
The steps of a session: operations of a store, of an interpreter over it, and changes made to the
host from outside.
-/
namespace Loadable

inductive Action where
  | resolve (path : GivenPath)
  | contains (path : GivenPath)
  | isDirectory (path : GivenPath)
  | isRequired (path : GivenPath)
  | read (path : GivenPath)
  | write (path : GivenPath) (data : GivenData)
  | registerExtension (path : GivenPath) (hook : GivenHook)
  | extension (path : GivenPath)
  | servedBy (path : GivenPath)
  | require (path : GivenPath)
  | load (path : GivenPath)
  | entry (path : GivenPath)
  | featureKey (key : Key)
  | delegateFor (key : Key)
  | keyExists (key : Key)
  | keyIsDirectory (key : Key)
  | keyRead (key : Key)
  | describe
  | roots
  | features
  | hookCount
  | requireName (name : GivenPath)
  | loadName (name : GivenPath)
  | requireRelative (name : GivenPath)
  | currentFile
  | evaluate (source : GivenData) (filename : Text)
  | preloadSource (path : GivenPath) (data : GivenData)
  | preloadHook (path : GivenPath) (hook : GivenHook)
  | raise (raised : Raised)
  | hostWrite (file : Text) (data : GivenData)
  | hostMakeDirectories (file : Text)
  | hostRemove (file : Text)
  | hostLink (file target : Text)
  | hostChangeDirectory (file : Text)
  | hostChangeMode (file : Text) (mode : Nat)
  | hostMode (file : Text)
  | hostList
  deriving DecidableEq

namespace Action

def name : Action → String
  | resolve _ => "resolve"
  | contains _ => "exists"
  | isDirectory _ => "is_directory"
  | isRequired _ => "is_required"
  | read _ => "read"
  | write _ _ => "write"
  | registerExtension _ _ => "register_extension"
  | extension _ => "get_extension"
  | servedBy _ => "served_by"
  | require _ => "require"
  | load _ => "load"
  | entry _ => "entry"
  | featureKey _ => "feature_key"
  | delegateFor _ => "delegate_for"
  | keyExists _ => "key_exists"
  | keyIsDirectory _ => "key_is_directory"
  | keyRead _ => "key_read"
  | describe => "describe"
  | roots => "roots"
  | features => "features"
  | hookCount => "hook_count"
  | requireName _ => "i.require"
  | loadName _ => "i.load"
  | requireRelative _ => "i.require_relative"
  | currentFile => "i.current_file"
  | evaluate _ _ => "i.eval_source"
  | preloadSource _ _ => "i.def_rb_source_file"
  | preloadHook _ _ => "i.def_file_for_type"
  | raise _ => "raise"
  | hostWrite _ _ => "host.write"
  | hostMakeDirectories _ => "host.mkdir"
  | hostRemove _ => "host.remove"
  | hostLink _ _ => "host.symlink"
  | hostChangeDirectory _ => "host.chdir"
  | hostChangeMode _ _ => "host.chmod"
  | hostMode _ => "host.mode"
  | hostList => "host.list"

/-- The action is asked of a store. Others go through the interpreter, which has the session's own
store for good, or past all stores. -/
def isOfStore : Action → Bool
  | requireName _ | loadName _ | requireRelative _ | currentFile | evaluate _ _ | preloadSource _ _
  | preloadHook _ _ | raise _ | hostWrite _ _ | hostMakeDirectories _ | hostRemove _ | hostLink _ _
  | hostChangeDirectory _ | hostChangeMode _ _ | hostMode _ | hostList => false
  | _ => true

end Action

inductive Part where
  | whole
  | memory
  | native
  | root (index : Nat)
  deriving DecidableEq

structure Step where
  part : Part := .whole
  action : Action
  deriving DecidableEq

structure ScriptStep where
  step : Step
  rescue : Bool := false
  deriving DecidableEq

/-- What each script does when it is run for the first time, the second time, and so on; a script
run more often than that does nothing. -/
abbrev Scripts := List (Text × List (List ScriptStep))

structure Setup where
  store : Store
  scripts : Scripts := []
  /-- The directory that changes to the host are relative to. -/
  base : Place := []

end Loadable
