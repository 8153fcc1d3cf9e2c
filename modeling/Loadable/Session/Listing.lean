import Loadable.Host.Tree
import Loadable.Session.Event
/-!
Listing all that stands below a directory of the host.
-/
namespace Loadable

namespace Listed

def path : Listed → Bytes
  | file path _ | directory path | link path _ => path

def inOrder (a b : Listed) : Bool :=
  let order (l : Listed) : List Nat := (Text.percentEscaped l.path).map CodePoint.toNat
  !(order b < order a)

end Listed

namespace Host

/-- A directory below the base can be listed, coming from the base: each on the way may be read, and
those above the last one may be entered. -/
def isListable (host : Host) (base dir : Place) : Bool :=
  host.permits .read dir &&
    (List.range (dir.length - base.length)).all fun n =>
      let above := dir.take (base.length + n)
      host.permits .read above && host.permits .enter above

/-- A place and how it is listed, if it stands below the base in a directory that can be listed. In
one that cannot be entered the names are known, but nothing can be found out about them. -/
def listed (host : Host) (base : Place) : Place × Node → Except Mishap (Option Listed)
  | (place, node) =>
    if base.isPrefixOf place ∧ place ≠ base ∧ host.isListable base place.dropLast then
      let path := joinNames (place.drop base.length)
      if !host.permits .enter place.dropLast then .error (.host .denied [place.path])
      else match node with
        | .directory _ => .ok (some (.directory path))
        | .link target => .ok (some (.link path target))
        | .file data mode =>
          if Use.read.permitted mode then .ok (some (.file path data))
          else .error (.host .denied [place.path])
    else .ok none

def listing (host : Host) (base : Place) : Except Mishap (List Listed) := do
  let listed ← host.nodes.mapM (host.listed base)
  return (listed.filterMap id).mergeSort Listed.inOrder

end Host

end Loadable
