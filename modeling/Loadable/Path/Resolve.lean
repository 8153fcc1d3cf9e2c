import Loadable.Path.Component
import Loadable.Text.Encoding
/-!
Resolving a path against a working directory without looking at any file system: `.` and `..` are
removed, a `..` never leaves a root and never makes a relative path absolute.
-/
namespace Loadable

/-- A canonical key: the bytes under which a store files an entry, with `/` between components. -/
abbrev Key := Bytes

variable {α : Type} [DecidableEq α] [PathLetter α]

namespace Flavor

/-- The components gathered so far, nearest first, and one more of the path. -/
def advance (relative : Bool) (gathered : List (Component α)) :
    Component α → List (Component α)
  | .here => gathered
  | .up => if gathered.tail = [] && !relative then [.root] else gathered.tail
  | c => c :: gathered

/-- What a path starts from: nothing if it starts at a root, else the working directory. The flag
says that the start is relative. -/
def start (f : Flavor) (path : List (Component α)) (cwd : List α) :
    Bool × List (Component α) :=
  match path with
  | .root :: _ => (false, [])
  | _ => (!f.isAbsolute cwd, (f.components cwd).reverse)

/-- The components that are left of a path resolved against a working directory, nearest first. -/
def gather (f : Flavor) (path cwd : List α) : List (Component α) :=
  let (relative, gathered) := f.start (f.components path) cwd
  (f.components path).foldl (advance relative) gathered

theorem gather_eq (f : Flavor) (path cwd : List α) :
    f.gather path cwd = (f.components path).foldl (advance (f.start (f.components path) cwd).1)
      (f.start (f.components path) cwd).2 := rfl

theorem gather_rooted {f : Flavor} {path : List α} {below : List (Component α)}
    (rooted : f.components path = .root :: below) (cwd : List α) :
    f.gather path cwd = below.foldl (advance false) [.root] := by
  rw [gather, rooted]
  rfl

def absolutize (f : Flavor) (path cwd : List α) : List α :=
  f.join (f.gather path cwd).reverse

def normalize : Flavor → Bytes → Key
  | posix, bytes => bytes
  | nt, bytes => bytes.map fun b => if b = backslash then slash else b

def keyOf (f : Flavor) (path : Text) : Except Text.Unencodable Key :=
  (Text.encode path).map f.normalize

def resolve (f : Flavor) (path cwd : Text) : Except Text.Unencodable Key :=
  f.keyOf (f.absolutize path cwd)

end Flavor

end Loadable
