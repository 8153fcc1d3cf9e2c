import Loadable.Path.Resolve
/-!
Canonical keys: roots, ancestors, and the directory under which sources live by default.
-/
namespace Loadable

namespace Key

/-- `/`, or a drive letter's root such as `c:/`. -/
def isRoot : Key → Bool
  | [a] => a = slash
  | [_, b, c] => b = colon ∧ c = slash
  | _ => false

def beforeLastSlash? (key : Key) : Option Key :=
  match key.reverse.dropWhile (· ≠ slash) with
  | [] => none
  | _ :: before => some before.reverse

def parent? (key : Key) : Option Key :=
  match beforeLastSlash? key with
  | none => none
  | some before =>
    let parent :=
      if before = [] then [slash]
      else if before.getLast? = some colon then before ++ [slash]
      else before
    if parent = key then none else some parent

def ancestors : (limit : Nat) → Key → List Key
  | 0, _ => []
  | limit + 1, key =>
    match parent? key with
    | none => []
    | some parent => parent :: if isRoot parent then [] else ancestors limit parent

/-- The proper ancestors of a key, nearest first. Each is shorter than the one before it, so the
key's length bounds their number. -/
def parents (key : Key) : List Key :=
  ancestors key.length key

def display (key : Key) : Text :=
  Text.display key

end Key

/-- The key is the root key itself or lies below it at a component's boundary. -/
def Key.isUnder (root key : Key) : Bool :=
  key = root || (root ++ [slash]).isPrefixOf key

namespace Flavor

def loadRootName : Flavor → String
  | posix => "/artichoke/virtual_root/src/lib"
  | nt => "c:/artichoke/virtual_root/src/lib"

/-- The reserved directory for sources and hooks: where memory stores start, and all that a hybrid
store keeps in memory. -/
def loadRoot (f : Flavor) : Text :=
  Text.ofString f.loadRootName

def loadRootKey (f : Flavor) : Key :=
  Bytes.ofString f.loadRootName

end Flavor

end Loadable
