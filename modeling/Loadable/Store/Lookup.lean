import Loadable.Store.Basic
/-!
Operations on canonical keys, for each kind of store, and where a path leads in a store: to a key,
to one of the two sides of a hybrid store, or to a root of a search path.
-/
namespace Loadable

namespace InMemory

def contains (key : Key) : Act Bool := do
  return (← Act.world).tables.has key

def isDirectory (key : Key) : Act Bool := do
  return (← Act.world).tables.isDirectory key

def read (key : Key) : Act Bytes := do
  Act.ofFault ((← Act.world).tables.read key)

end InMemory

namespace OnHost

/-- A hook counts as existing whether or not the host has a file there. -/
def contains (key : Key) : Act Bool := do
  let w ← Act.world
  return w.tables.hooks.contains key || w.host.pathExists key

def isDirectory (key : Key) : Act Bool := do
  return (← Act.world).host.isDirectory key

def read (key : Key) : Act Bytes := do
  Act.of ((← Act.world).host.readKey key)

def featureKey (f : Flavor) (key : Key) : Act Key := do
  Act.ofMishap ((← Act.world).host.featureKey f key)

end OnHost

inductive Side where
  | memory
  | native
  deriving DecidableEq

namespace Store

def side (s : Store) (key : Key) : Side :=
  if Key.isUnder s.flavor.loadRootKey key then .memory else .native

def route (s : Store) (key : Key) : Act Side := do
  let side := s.side key
  let name : Text := match side with
    | .memory => "memory"
    | .native => "native"
  s.log .debug .hybrid (("Routing " : Text) ++ key.display ++ (" to " : Text) ++ name)
  return side

/-- With `nt`, a key under the reserved directory takes its lowercase drive letter. -/
def foldDrive (s : Store) (key : Key) : Key :=
  match s.flavor, key with
  | .nt, letter :: second :: rest =>
    let lower := if 0x41 ≤ letter ∧ letter ≤ 0x5A then letter + 0x20 else letter
    if second = colon ∧ Key.isUnder s.flavor.loadRootKey (lower :: second :: rest) then
      lower :: second :: rest
    else key
  | _, _ => key

def findIn (s : Store) (path : GivenPath) : List Text → Act (Option (Text × Key))
  | [] => return none
  | root :: roots => do
    let key ← Act.of ((s.nativeAt root).ownKey path)
    if ← OnHost.contains key then
      s.log .debug .searchPath (("Found " : Text) ++ key.display ++ (" under " : Text) ++ root)
      return some (root, key)
    else findIn s path roots

def findOrRaise (s : Store) (roots : List Text) (path : GivenPath) : Act (Text × Key) := do
  match ← s.findIn path roots with
  | some found => return found
  | none =>
    let shown ← Act.ofMishap path.asText
    Act.raise (.fault (.inNoRoot shown roots))

/-- The canonical key of a path. A search path resolves against the first root that has the path,
else against its own working directory. -/
def resolve (s : Store) (path : GivenPath) : Act Key := do
  match s.backend with
  | .memory | .native => Act.of (s.ownKey path)
  | .hybrid _ => return s.foldDrive (← Act.of (s.ownKey path))
  | .searchPath roots =>
    match ← s.findIn path roots with
    | some (_, key) => return key
    | none => Act.of (s.ownKey path)

def containsKey (s : Store) (key : Key) : Act Bool := do
  match s.backend with
  | .memory => InMemory.contains key
  | .native => OnHost.contains key
  | .hybrid _ =>
    match ← s.route key with
    | .memory => InMemory.contains key
    | .native => OnHost.contains key
  | .searchPath roots => return !roots.isEmpty && (← OnHost.contains key)

def keyIsDirectory (s : Store) (key : Key) : Act Bool := do
  match s.backend with
  | .memory => InMemory.isDirectory key
  | .native => OnHost.isDirectory key
  | .hybrid _ =>
    match ← s.route key with
    | .memory => InMemory.isDirectory key
    | .native => OnHost.isDirectory key
  | .searchPath roots => return !roots.isEmpty && (← OnHost.isDirectory key)

def readKey (s : Store) (key : Key) : Act Bytes := do
  match s.backend with
  | .memory => InMemory.read key
  | .native => OnHost.read key
  | .hybrid _ =>
    match ← s.route key with
    | .memory => InMemory.read key
    | .native => OnHost.read key
  | .searchPath roots =>
    let (_, key) ← s.findOrRaise roots (.bytes key)
    OnHost.read key

/-- The key under which a feature is registered: on the host the canonical path, links resolved. -/
def featureKey (s : Store) (key : Key) : Act Key := do
  match s.backend with
  | .memory => return key
  | .native => OnHost.featureKey s.flavor key
  | .hybrid _ =>
    match ← s.route key with
    | .memory => return key
    | .native => OnHost.featureKey s.flavor key
  | .searchPath roots => if roots.isEmpty then return key else OnHost.featureKey s.flavor key

end Store

end Loadable
