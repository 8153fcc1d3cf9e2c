import Loadable.Fault.Basic
import Loadable.Host.File
/-!
Changes made to the host, each in as many requests as it takes. A change goes as far as it gets: what
is done before a request is refused stays done, and the refusal names the paths it was about.
-/
namespace Loadable

abbrev HostChange := ExceptT Mishap (StateM Host)

namespace HostChange

def request (paths : List Bytes) (f : Host → Except HostFailure Host) : HostChange Unit := do
  if paths.any Host.hasNul then throw .nulInPath
  match f (← get) with
  | .ok host => set host
  | .error failure => throw (.host failure paths)

def writeFile (path data : Bytes) : HostChange Unit :=
  request [path] (·.writeFile path data)

def symlink (path target : Bytes) : HostChange Unit :=
  request [target, path] (·.symlink path target)

def changeDirectory (path : Bytes) : HostChange Unit :=
  request [path] (·.changeDirectory path)

def changeMode (path : Bytes) (mode : Nat) : HostChange Unit :=
  request [path] (·.changeMode path mode)

def ensureDirectory (path : Bytes) : HostChange Unit :=
  tryCatch (request [path] (·.makeDirectory path)) fun mishap => do
    match mishap with
    | .host _ _ => if (← get).isDirectory path then return () else throw mishap
    | _ => throw mishap

def unlessOccupied (change : HostChange Unit) : HostChange Unit :=
  tryCatch change fun mishap =>
    match mishap with
    | .host failure _ => if failure.kind = .occupied then return () else throw mishap
    | _ => throw mishap

/-- The path taken apart before its last name; a slash at the end is no name. -/
def splitName (path : Bytes) : Bytes × Bytes :=
  match splitLast path with
  | (head, []) => splitLast head
  | parts => parts

/-- Makes a directory after those above it. Each is shorter than the one below it, so the path's
length bounds how many there are. -/
def makeDirectories (path : Bytes) : HostChange Unit :=
  go path.length path
where
  go : (limit : Nat) → Bytes → HostChange Unit
    | 0, path => ensureDirectory path
    | limit + 1, path => do
      let (head, name) := splitName path
      if head ≠ [] ∧ name ≠ [] ∧ !(← get).pathExists head then
        unlessOccupied (go limit head)
        if name ≠ [dot] then ensureDirectory path
      else ensureDirectory path

def requestName (dir : Place) (name : Bytes) (f : Host → Bytes → Except HostFailure Host) :
    HostChange Unit := do
  match f (← get) (Place.path (dir ++ [name])) with
  | .ok host => set host
  | .error failure => throw (.host failure [name])

def openDirectory (place : Place) (shown : Bytes) : HostChange Unit := do
  if (← get).permits .read place then return () else throw (.host .denied [shown])

def clear : (depth : Nat) → Place → HostChange Unit
  | 0, _ => return ()
  | depth + 1, dir => do
    for name in (← get).names dir do
      match (← get).node? (dir ++ [name]) with
      | some (.directory _) =>
        if !(← get).permits .enter dir then throw (.host .denied [name])
        openDirectory (dir ++ [name]) name
        clear depth (dir ++ [name])
        requestName dir name Host.removeDirectory
      | _ => requestName dir name Host.unlink

def removeTree (path : Bytes) : HostChange Unit := do
  if Host.hasNul path then throw .nulInPath
  let host ← get
  match host.locate .entry path with
  | .ok (.node place (.directory _)) =>
    openDirectory place path
    clear host.nodes.length place
    request [path] (·.removeDirectory path)
  | _ => request [path] (·.unlink path)

end HostChange

end Loadable
