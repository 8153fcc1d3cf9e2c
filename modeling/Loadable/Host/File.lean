import Loadable.Host.Walk
/-!
What a process asks of its host: to read and write files, to make, move and remove what stands in
directories, and to change permissions.
-/
namespace Loadable

namespace Host

def readFile (host : Host) (path : Bytes) : Except HostFailure Bytes :=
  if host.denied.contains path then .error .denied
  else match host.stat path with
    | .error failure => .error failure
    | .ok (place, node) =>
      if !host.permits .read place then .error .denied
      else match node with
        | .file data _ => .ok data
        | _ => .error .isDirectory

/-- A file that is written loses the bits that lend its owner's rights, and those of its group if
the group may execute it. -/
def modeOnceWritten (mode : Nat) : Nat :=
  let owner := if mode.testBit 11 then mode - 0o4000 else mode
  if owner.testBit 10 && owner.testBit 3 then owner - 0o2000 else owner

def writeFile (host : Host) (path : Bytes) (data : Bytes) : Except HostFailure Host := do
  match ← host.locate .creation path with
  | .node place (.file _ mode) =>
    if host.permits .write place then return host.put place (.file data (modeOnceWritten mode))
    else throw .denied
  | .node _ _ => throw .isDirectory
  | .free place =>
    host.checkAlterable place.dropLast
    return host.put place (.file data host.fileMode)

def mode (host : Host) (path : Bytes) : Except HostFailure Nat := do
  match ← host.stat path with
  | (_, .file _ mode) | (_, .directory mode) => return mode
  | (_, .link _) => throw .linkLoop

def changeMode (host : Host) (path : Bytes) (mode : Nat) : Except HostFailure Host := do
  match ← host.stat path with
  | (place, .file data _) => return host.put place (.file data (mode % 0o10000))
  | (place, .directory _) => return host.put place (.directory (mode % 0o10000))
  | (_, .link _) => throw .linkLoop

def changeDirectory (host : Host) (path : Bytes) : Except HostFailure Host := do
  match ← host.stat path with
  | (place, .directory _) =>
    if host.permits .enter place then return { host with cwd := place } else throw .denied
  | _ => throw .notDirectory

def endsInSlash (path : Bytes) : Bool :=
  path.getLast? = some slash

def createFile (host : Host) (path : Bytes) : Except HostFailure (Place × Host) := do
  let place ← host.entryPlace .occupied path
  if (host.node? place).isSome then throw .occupied
  host.checkAlterable place.dropLast
  return (place, host.put place (.file [] (host.granted 0o600)))

/-- Writes to an open file, wherever its path leads by now. -/
def fill (host : Host) (place : Place) (data : Bytes) : Host :=
  match host.node? place with
  | some (.file _ mode) => host.put place (.file data (modeOnceWritten mode))
  | _ => host

/-- In a directory that passes its group on, a new one does so too. -/
def makeDirectory (host : Host) (path : Bytes) : Except HostFailure Host := do
  let place ← host.entryPlace .occupied path
  if (host.node? place).isSome then throw .occupied
  host.checkAlterable place.dropLast
  match host.node? place.dropLast with
  | some (.directory above) =>
    return host.put place (.directory (host.directoryMode + if above.testBit 10 then 0o2000 else 0))
  | _ => throw .notDirectory

def symlink (host : Host) (path target : Bytes) : Except HostFailure Host := do
  if target = [] then throw .absent
  if pathLimit ≤ target.length then throw .nameTooLong
  let place ← host.entryPlace .occupied path
  if (host.node? place).isSome then throw .occupied
  if endsInSlash path then throw .absent
  host.checkAlterable place.dropLast
  return host.put place (.link target)

/-- Moves a file over what a path names, which must not be a directory. A link is replaced itself.
-/
def rename (host : Host) (source target : Bytes) : Except HostFailure Host := do
  let origin ← host.entryPlace .busy source
  let place ← host.entryPlace .busy target
  let some node := host.node? origin | throw .absent
  if endsInSlash target then throw .notDirectory
  host.checkAlterable origin.dropLast
  host.checkAlterable place.dropLast
  if let some (.directory _) := host.node? place then throw .isDirectory
  return (host.erase origin).put place node

def unlink (host : Host) (path : Bytes) : Except HostFailure Host := do
  let place ← host.entryPlace .isDirectory path
  let some node := host.node? place | throw .absent
  if endsInSlash path then
    throw (if node matches .directory _ then .isDirectory else .notDirectory)
  host.checkAlterable place.dropLast
  if node matches .directory _ then throw .isDirectory
  return host.erase place

/-- Why a directory cannot be removed by a path that ends in no name of its own. -/
def namelessRemoval (path : Bytes) : HostFailure :=
  match ((pathNames path).filter (· ≠ [])).getLast? with
  | none => .busy
  | some name => if name = [dot] then .invalid else .notEmpty

def removeDirectory (host : Host) (path : Bytes) : Except HostFailure Host := do
  let place ← host.entryPlace (namelessRemoval path) path
  let some node := host.node? place | throw .absent
  host.checkAlterable place.dropLast
  if !(node matches .directory _) then throw .notDirectory
  if host.names place ≠ [] then throw .notEmpty
  return host.eraseDirectory place

end Host

end Loadable
