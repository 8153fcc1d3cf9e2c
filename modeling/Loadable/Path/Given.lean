import Loadable.Fault.Basic
import Loadable.Value
/-!
Paths as callers give them: text, bytes, or a value that is no path at all.
-/
namespace Loadable

inductive GivenPath where
  | text (t : Text)
  | bytes (b : Bytes)
  | unusable (typeName : String)
  deriving DecidableEq, Inhabited

namespace GivenPath

def asText : GivenPath → Except Mishap Text
  | text t => .ok t
  | bytes b => .ok (Text.decode b)
  | unusable typeName => .error (.notAPath typeName)

end GivenPath

inductive GivenData where
  | bytes (b : Bytes)
  | unusable (typeName : String)
  deriving DecidableEq

namespace GivenData

def asBytes : GivenData → Except Mishap Bytes
  | bytes b => .ok b
  | unusable typeName => .error (.notBytes typeName)

end GivenData

namespace Flavor

def ofGiven : Option Value → Except Mishap Flavor
  | none | some .null => .ok host
  | some (.text t) =>
    match ofName? t with
    | some f => .ok f
    | none => .error (.unknownFlavor t.quoted)
  | some v => .error (.unknownFlavor v.quoted)

/-- The working directory is looked at only if the path does not start at a root. -/
def absolutizeGiven (f : Flavor) (path cwd : GivenPath) : Except Mishap Text := do
  let path ← path.asText
  match f.components path with
  | .root :: _ => return f.absolutize path []
  | _ => return f.absolutize path (← cwd.asText)

def keyOfGiven (f : Flavor) : GivenPath → Except Raised Key
  | .bytes b => .ok (f.normalize b)
  | .unusable typeName => .error (.mishap (.notAPath typeName))
  | .text t =>
    match f.keyOf t with
    | .ok key => .ok key
    | .error stretch => .error (.fault (.unencodable stretch))

def resolveGiven (f : Flavor) (path cwd : GivenPath) : Except Raised Key :=
  match f.absolutizeGiven path cwd with
  | .ok text => f.keyOfGiven (.text text)
  | .error mishap => .error (.mishap mishap)

end Flavor

end Loadable
