import Loadable.Fault.Basic
import Loadable.Host.File
import Loadable.Host.RealPath
/-!
How a store uses its host: canonical paths, reading, and writing a file as a whole by way of a
temporary one.
-/
namespace Loadable

namespace Host

def featureKey (host : Host) (f : Flavor) (key : Key) : Except Mishap Key :=
  (host.realPath key).map f.normalize

/-- A denied directory is reported as a directory. -/
def readKey (host : Host) (key : Key) : Except Raised Bytes :=
  if hasNul key then .error (.mishap .nulInPath)
  else match host.readFile key with
    | .ok data => .ok data
    | .error failure =>
      if failure.kind = .denied ∧ host.isDirectory key then
        .error (.fault (.isDirectory key (some failure)))
      else .error (.fault (.ofHost failure key))

def targetMode (host : Host) (path : Bytes) : Except Mishap Nat :=
  if hasNul path then .error .nulInPath
  else match host.mode path with
    | .ok mode => .ok (mode % 0o10000)
    | .error failure =>
      if failure.kind = .absent then .ok host.fileMode else .error (.host failure)

def temporaryName (n : Nat) : Bytes :=
  let digits := Nat.toDigits 10 n
  Bytes.ofString ".loadpath-" ++
    (List.replicate (8 - digits.length) '0' ++ digits).map fun c => c.toNat.toUInt8

/-- The names that a walk can come by: those in the path, in the targets of links, and of the
directories that the process works in. -/
def namesOnWays (host : Host) (path : Bytes) : List Bytes :=
  pathNames path ++ host.cwd ++ host.nodes.flatMap fun (_, node) =>
    match node with
    | .link target => pathNames target
    | .file _ _ | .directory _ => []

def createFirst (host : Host) (dir : Bytes) : List Bytes → Except HostFailure (Bytes × Place × Host)
  | [] => .error .occupied
  | name :: names =>
    let path := joinPath dir name
    match host.createFile path with
    | .ok made => .ok (path, made)
    | .error failure =>
      if failure.kind = .occupied then createFirst host dir names else .error failure

/-- The names of temporary files, without those to be avoided. There are more of them than files. -/
def temporaryNames (host : Host) (avoided : List Bytes) : List Bytes :=
  (List.range (host.nodes.length + avoided.length + 1)).map temporaryName |>.filter (· ∉ avoided)

/-- Makes an empty temporary file in a directory on behalf of a path, and opens it. A name drawn at
random could be one on the way to the path, by bad luck or through a link; here it is assumed not to
be. -/
def createTemporary (host : Host) (dir path : Bytes) : Except Mishap (Bytes × Place × Host) :=
  match host.absolute dir with
  | .error mishap => .error mishap
  | .ok dir =>
    if hasNul dir then .error .nulInPath
    else match host.createFirst dir (host.temporaryNames (pathNames dir ++ host.namesOnWays path)) with
      | .ok made => .ok made
      | .error failure => .error (.host failure)

def discard (host : Host) (temporary : Bytes) : Host :=
  match host.unlink temporary with
  | .ok host => host
  | .error _ => host

def moveInto (host : Host) (temporary path : Bytes) : Except Mishap Unit × Host :=
  match host.targetMode path with
  | .error mishap => (.error mishap, host.discard temporary)
  | .ok mode =>
    match host.changeMode temporary mode with
    | .error failure => (.error (.host failure), host.discard temporary)
    | .ok host =>
      match host.rename temporary path with
      | .error failure => (.error (.host failure), host.discard temporary)
      | .ok host => (.ok (), host)

def replace (host : Host) (path data : Bytes) : Except Mishap Unit × Host :=
  match host.createTemporary (if dirName path = [] then [dot] else dirName path) path with
  | .error mishap => (.error mishap, host)
  | .ok (temporary, place, host) => (host.fill place data).moveInto temporary path

/-- A host failure is the fault it amounts to at the key; a mishap of another kind stays one. -/
def writeKey (host : Host) (key : Key) (data : Bytes) : Except Raised Unit × Host :=
  match host.replace key data with
  | (.ok (), host) => (.ok (), host)
  | (.error (.host failure _), host) => (.error (.fault (.ofHost failure key)), host)
  | (.error mishap, host) => (.error (.mishap mishap), host)

end Host

end Loadable
