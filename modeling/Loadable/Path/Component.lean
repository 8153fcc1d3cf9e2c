import Loadable.Path.Drive
/-!
Paths as components, and components as paths.
-/
namespace Loadable

/-- `here` is a `.` in front of a path without root; elsewhere a `.` leaves no component. -/
inductive Component (α : Type) where
  | drive (text : List α)
  | root
  | here
  | up
  | name (text : List α)
  deriving DecidableEq

variable {α : Type} [DecidableEq α] [PathLetter α]

namespace Component

def ofPiece? (mayBeHere : Bool) (piece : List α) : Option (Component α) :=
  if piece = [] then none
  else if piece = [dot] then if mayBeHere then some here else none
  else if piece = [dot, dot] then some up
  else some (name piece)

def ofPieces (rooted : Bool) : List (List α) → List (Component α)
  | [] => []
  | piece :: pieces =>
    (ofPiece? (!rooted) piece).toList ++ pieces.filterMap (ofPiece? false)

end Component

namespace Flavor

def startsRooted (f : Flavor) : List α → Bool
  | [] => false
  | a :: _ => f.isSeparator a

def components (f : Flavor) (path : List α) : List (Component α) :=
  let (drive, rest) := f.splitDrive path
  let rooted := f.startsRooted rest || isShare drive
  (if drive = [] then [] else [.drive drive]) ++ (if rooted then [.root] else []) ++
    Component.ofPieces rooted (splitAt f.isSeparator rest)

/-- An absolute path has a root; with `nt` a drive must precede it. -/
def isAbsolute (f : Flavor) (path : List α) : Bool :=
  match f, f.components path with
  | posix, .root :: _ => true
  | nt, .drive _ :: .root :: _ => true
  | _, _ => false

def needsSeparator (f : Flavor) (buffer : List α) : Bool :=
  match buffer.getLast? with
  | none => false
  | some a => !f.isSeparator a && !(f == nt && isDriveLetter buffer)

def push (f : Flavor) (buffer : List α) : Component α → List α
  | .drive text => text
  | .root => (f.splitDrive buffer).1 ++ [f.separator]
  | .here => step [dot]
  | .up => step [dot, dot]
  | .name text => step text
where
  step (text : List α) : List α :=
    if f.needsSeparator buffer then buffer ++ f.separator :: text else buffer ++ text

def join (f : Flavor) (components : List (Component α)) : List α :=
  components.foldl f.push []

end Flavor

end Loadable
