import Loadable.Text.Quoted
/-!
How the host refuses an operation.
-/
namespace Loadable

/-- A refusal with the host's error number and its description, or one known by its text alone. -/
inductive HostFailure where
  | numbered (number : Int) (description : Option Text)
  | worded (text : Text)
  deriving DecidableEq

namespace HostFailure

inductive Kind where
  | absent
  | occupied
  | notDirectory
  | isDirectory
  | denied
  | other
  deriving DecidableEq

def kind : HostFailure → Kind
  | numbered 1 _ | numbered 13 _ => .denied
  | numbered 2 _ => .absent
  | numbered 17 _ => .occupied
  | numbered 20 _ => .notDirectory
  | numbered 21 _ => .isDirectory
  | _ => .other

def number? : HostFailure → Option Int
  | numbered n _ => some n
  | worded _ => none

def shown : HostFailure → Text
  | worded text => text
  | numbered n description =>
    match description with
    | some (c :: d) => c :: d
    | some [] => ("[Errno " : Text) ++ Text.ofInt n ++ ("] " : Text)
    | none => ("[Errno " : Text) ++ Text.ofInt n ++ ("] None" : Text)

def written : HostFailure → Text
  | worded text => text
  | numbered n description =>
    ("[Errno " : Text) ++ Text.ofInt n ++ ("] " : Text) ++ description.getD ("None" : Text)

def writtenAbout (failure : HostFailure) : List Bytes → Text
  | [] => failure.written
  | path :: paths =>
    failure.written ++ (": " : Text) ++
      Text.joinWith " -> " ((path :: paths).map fun path => (Text.decode path).quoted)

def absent : HostFailure := numbered 2 (some "No such file or directory")

def denied : HostFailure := numbered 13 (some "Permission denied")

def busy : HostFailure := numbered 16 (some "Device or resource busy")

def occupied : HostFailure := numbered 17 (some "File exists")

def notDirectory : HostFailure := numbered 20 (some "Not a directory")

def isDirectory : HostFailure := numbered 21 (some "Is a directory")

def invalid : HostFailure := numbered 22 (some "Invalid argument")

def nameTooLong : HostFailure := numbered 36 (some "File name too long")

def notEmpty : HostFailure := numbered 39 (some "Directory not empty")

def linkLoop : HostFailure := numbered 40 (some "Too many levels of symbolic links")

end HostFailure

end Loadable
