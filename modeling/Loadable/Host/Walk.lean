import Loadable.Host.Tree
/-!
Walking a path name by name from a directory, following symbolic links.
-/
namespace Loadable

inductive Spot where
  | node (place : Place) (node : Node)
  | free (place : Place)
  deriving DecidableEq

/-- What a walk is for: to find what a path stands for, to find what stands at its last name even if
it is a link, or to open a file there that is made if need be. -/
inductive Aim where
  | target
  | entry
  | creation
  deriving DecidableEq

/-- The names to walk. A slash at the end leaves an empty last name, which asks for a directory. -/
def pathNames (path : Bytes) : List Bytes :=
  (splitAt (· = slash) path).filter (· ≠ []) ++ if path.getLast? = some slash then [[]] else []

def walkStart (dir : Place) (path : Bytes) : Place :=
  if path.head? = some slash then [] else dir

namespace Host

/-- Walks from a directory; `jump` goes on behind a link. Every name but an empty one is looked up
in the directory it stands in, which takes the permission to enter that. -/
def walkWith (host : Host) (jump : Place → List Bytes → Except HostFailure Spot) (aim : Aim)
    (dir : Place) : List Bytes → Except HostFailure Spot
  | [] =>
    match host.node? dir with
    | some node => .ok (.node dir node)
    | none => .error .absent
  | name :: rest =>
    if name = [] then walkWith host jump aim dir rest
    else if !host.permits .enter dir then .error .denied
    else if name = [dot] then walkWith host jump aim dir rest
    else if name = [dot, dot] then walkWith host jump aim dir.dropLast rest
    else if aim = .creation ∧ rest = [[]] then .error .isDirectory
    else if nameLimit < name.length then .error .nameTooLong
    else
      let place := dir ++ [name]
      match host.node? place with
      | none => if rest = [] then .ok (.free place) else .error .absent
      | some (.directory _) => walkWith host jump aim place rest
      | some (.file data mode) =>
        if rest = [] then .ok (.node place (.file data mode)) else .error .notDirectory
      | some (.link target) =>
        if rest = [] ∧ aim = .entry then .ok (.node place (.link target))
        else jump (walkStart dir target) (pathNames target ++ rest)

def walk (host : Host) (aim : Aim) : (links : Nat) → Place → List Bytes → Except HostFailure Spot
  | 0 => host.walkWith (fun _ _ => .error .linkLoop) aim
  | links + 1 => host.walkWith (host.walk aim links) aim

def locate (host : Host) (aim : Aim) (path : Bytes) : Except HostFailure Spot :=
  if path = [] then .error .absent
  else if pathLimit ≤ path.length then .error .nameTooLong
  else host.walk aim linkLimit (walkStart host.cwd path) (pathNames path)

def stat (host : Host) (path : Bytes) : Except HostFailure (Place × Node) :=
  match host.locate .target path with
  | .ok (.node place node) => .ok (place, node)
  | .ok (.free _) => .error .absent
  | .error failure => .error failure

/-- The place of a path's last name, whatever stands there. A path that ends in no name of its own
has none: the root, or one with `.` or `..` at its end. The failure `nameless` is for those. -/
def entryPlace (host : Host) (nameless : HostFailure) (path : Bytes) : Except HostFailure Place :=
  if path = [] then .error .absent
  else if pathLimit ≤ path.length then .error .nameTooLong
  else
    let names := (pathNames path).filter (· ≠ [])
    match host.walk .target linkLimit (walkStart host.cwd path) (names.dropLast ++ [[]]) with
    | .error failure => .error failure
    | .ok (.free _) => .error .absent
    | .ok (.node dir _) =>
      match names.getLast? with
      | none => .error nameless
      | some name =>
        if !host.permits .enter dir then .error .denied
        else if name = [dot] ∨ name = [dot, dot] then .error nameless
        else if nameLimit < name.length then .error .nameTooLong
        else .ok (dir ++ [name])

/-- No host path holds a zero byte; asking after one finds nothing. -/
def hasNul (path : Bytes) : Bool :=
  path.contains 0

def pathExists (host : Host) (path : Bytes) : Bool :=
  !hasNul path && (host.stat path).isOk

def isDirectory (host : Host) (path : Bytes) : Bool :=
  !hasNul path && match host.stat path with
    | .ok (_, .directory _) => true
    | _ => false

def readLink? (host : Host) (path : Bytes) : Option Bytes :=
  match host.locate .entry path with
  | .ok (.node _ (.link target)) => some target
  | _ => none

end Host

end Loadable
