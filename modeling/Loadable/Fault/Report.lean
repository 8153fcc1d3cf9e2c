import Loadable.Fault.Basic
import Loadable.Value
/-!
How a fault is reported: a kind with its code, a message, the path it is about, and what else a
caller may want to know.
-/
namespace Loadable

inductive FaultKind where
  | loadPath
  | notFound
  | isADirectory
  | notADirectory
  | encoding
  | hostIo
  | permission
  | hookFailure
  | unsupportedOperation
  | configuration
  deriving DecidableEq

namespace FaultKind

def name : FaultKind → String
  | loadPath => "LoadPathError"
  | notFound => "PathNotFoundError"
  | isADirectory => "PathIsADirectoryError"
  | notADirectory => "PathNotADirectoryError"
  | encoding => "PathEncodingError"
  | hostIo => "HostIOError"
  | permission => "PathPermissionError"
  | hookFailure => "HookFailureError"
  | unsupportedOperation => "UnsupportedOperationError"
  | configuration => "LoadPathConfigurationError"

def ofName? (name : String) : Option FaultKind :=
  [loadPath, notFound, isADirectory, notADirectory, encoding, hostIo, permission, hookFailure,
    unsupportedOperation, configuration].find? (·.name = name)

def code : FaultKind → Text
  | loadPath => "LOAD_PATH_ERROR"
  | notFound => "NOT_FOUND"
  | isADirectory => "IS_A_DIRECTORY"
  | notADirectory => "NOT_A_DIRECTORY"
  | encoding => "ENCODING_ERROR"
  | hostIo => "HOST_IO_ERROR"
  | permission => "PERMISSION_DENIED"
  | hookFailure => "HOOK_FAILURE"
  | unsupportedOperation => "UNSUPPORTED_OPERATION"
  | configuration => "CONFIGURATION_ERROR"

def userMessage? : FaultKind → Option Text
  | notFound => some "cannot load such file"
  | hookFailure => some "The extension failed to initialize."
  | _ => none

def suggestion? : FaultKind → Option Text
  | encoding => some "Use paths encodable with the filesystem encoding."
  | configuration => some "Check the backend name and search paths."
  | _ => none

end FaultKind

/-- What may be said about a fault beside its message. A code, a user message and a suggestion may
also be withheld on purpose. -/
structure Details where
  code : Option (Option Text) := none
  path : Option Text := none
  context : List (Text × Value) := []
  userMessage : Option (Option Text) := none
  suggestion : Option (Option Text) := none
  number : Option Value := none
  hook : Option Text := none
  operation : Option Text := none
  field : Option Text := none
  value : Option Value := none

structure Report where
  kind : FaultKind
  code : Option Text
  message : Text
  path : Option Text
  context : List (Text × Value)
  userMessage : Text
  suggestion : Option Text
  /-- The name of what caused the fault. -/
  cause : Option String := none

def putEntry (name : Text) (value : Value) (context : List (Text × Value)) : List (Text × Value) :=
  context.filter (·.1 ≠ name) ++ [(name, value)]

namespace FaultKind

/-- The kinds whose code a caller may choose. -/
def hasFreeCode : FaultKind → Bool
  | loadPath | notFound | hostIo => true
  | _ => false

def admits (kind : FaultKind) (d : Details) : Bool :=
  (kind.hasFreeCode || d.code.isNone) && (kind ≠ hookFailure || d.userMessage.isNone) &&
    (kind.suggestion?.isNone || d.suggestion.isNone)

end FaultKind

namespace Details

def nonEmpty : Option Text → Option Text
  | some [] => none
  | t => t

def contextFor (d : Details) : FaultKind → List (Text × Value)
  | .hostIo | .permission =>
    match d.number with
    | some n => putEntry "errno" n d.context
    | none => d.context
  | .hookFailure =>
    match nonEmpty d.hook with
    | some hook => putEntry "hook_name" (.text hook) d.context
    | none => d.context
  | .unsupportedOperation =>
    match nonEmpty d.operation with
    | some operation => putEntry "operation" (.text operation) d.context
    | none => d.context
  | .configuration =>
    let context := match nonEmpty d.field with
      | some field => putEntry "config_field" (.text field) d.context
      | none => d.context
    match d.value with
    | some value => putEntry "config_value" (.text value.shown) context
    | none => context
  | _ => d.context

end Details

namespace Report

def make (kind : FaultKind) (message : Text) (d : Details) : Report where
  kind := kind
  code := d.code.getD (some kind.code)
  message := message
  path := d.path
  context := d.contextFor kind
  userMessage :=
    (Details.nonEmpty (match d.userMessage with
      | some given => given
      | none => kind.userMessage?)).getD message
  suggestion := d.suggestion.getD kind.suggestion?

def summary (r : Report) : Text :=
  let line := ("[" : Text) ++ r.code.getD ("None" : Text) ++ ("] " : Text) ++ r.message
  match r.path with
  | some (c :: path) =>
    if Text.hasPart (c :: path) r.message then line
    else line ++ (" (path: " : Text) ++ c :: path ++ (")" : Text)
  | _ => line

end Report

namespace HostFailure

def name (failure : HostFailure) : String :=
  match failure.kind with
  | .absent => "FileNotFoundError"
  | .occupied => "FileExistsError"
  | .notDirectory => "NotADirectoryError"
  | .isDirectory => "IsADirectoryError"
  | .denied => "PermissionError"
  | .other => "OSError"

end HostFailure

namespace Mishap

def name : Mishap → String
  | outcry .runtime _ => "RuntimeError"
  | outcry .value _ | unknownFlavor _ | nulInPath => "ValueError"
  | outcry .type _ | notAPath _ | notBytes _ | notCallable _ => "TypeError"
  | outcry .host _ => "OSError"
  | unencodable _ => "UnicodeEncodeError"
  | linksTooDeep => "RecursionError"
  | outcry .exit _ => "SystemExit"
  | outcry .interrupt _ => "KeyboardInterrupt"
  | outcry (.other className _) _ => className
  | host failure _ => failure.name
  | noSuchOperation => "AttributeError"
  | noSuchRoot => "IndexError"

end Mishap

namespace Refusal

def operation : Refusal → Text
  | write => "write"
  | registerExtension => "register_extension"

def message : Refusal → Text
  | write => "Writing is not supported by search path filesystems"
  | registerExtension => "Extension hooks are not supported by search path filesystems"

end Refusal

namespace Fault

def about (kind : FaultKind) (key : Key) (message : Text) (cause : Option HostFailure) : Report :=
  { Report.make kind message { path := some key.display } with cause := cause.map (·.name) }

def aboutHost (kind : FaultKind) (key : Key) (message : Text) (cause : HostFailure) : Report :=
  { Report.make kind message
      { path := some key.display, number := cause.number?.map .integer } with
    cause := some cause.name }

def report : Fault → Report
  | noSuchFile key cause => about .notFound key (("No such file: " : Text) ++ key.display) cause
  | isDirectory key cause =>
    about .isADirectory key (("Is a directory: " : Text) ++ key.display) cause
  | notDirectory key cause =>
    about .notADirectory key (("Not a directory: " : Text) ++ key.display) cause
  | denied key cause =>
    aboutHost .permission key (("Permission denied: " : Text) ++ key.display) cause
  | hostFailed key cause =>
    aboutHost .hostIo key
      (("I/O error on " : Text) ++ key.display ++ (": " : Text) ++ cause.shown) cause
  | replacesDirectory key =>
    about .isADirectory key
      (("Cannot replace directory " : Text) ++ key.display ++ (" with a file" : Text)) none
  | parentNotDirectory parent key =>
    about .notADirectory key
      (("Parent " : Text) ++ parent.display ++ (" of " : Text) ++ key.display ++
        (" is not a directory" : Text)) none
  | unencodable stretch =>
    { Report.make .encoding
        (("Path is not representable as bytes: " : Text) ++ stretch.text.quoted)
        { context := [("reason", .text stretch.reason)] } with
      cause := some "UnicodeEncodeError" }
  | inNoRoot path roots =>
    Report.make .notFound (("No such file in any search root: " : Text) ++ path)
      { path := some path, context := [("roots", .list (roots.map .text))] }
  | noCandidate name candidates =>
    Report.make .notFound (("cannot load such file -- " : Text) ++ name)
      { path := some name, context := [("candidates", .list (candidates.map .text))] }
  | hookFailed key hook cause =>
    { Report.make .hookFailure
        (("Extension hook " : Text) ++ hook ++ (" failed: " : Text) ++ cause.shown)
        { path := some key.display, hook := some hook } with
      cause := some cause.name }
  | unsupported refused key =>
    Report.make .unsupportedOperation refused.message
      { path := some key.display, operation := some refused.operation }
  | unknownBackend backend =>
    Report.make .configuration
      (("Unknown filesystem backend '" : Text) ++ backend.getD ("None" : Text) ++ ("'" : Text))
      { field := some "backend", value := backend.map .text }
  | announced message => Report.make .loadPath message {}

end Fault

end Loadable
