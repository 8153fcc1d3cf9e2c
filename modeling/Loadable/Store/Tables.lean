import Loadable.Hook
import Loadable.Registry
/-!
What a store keeps in memory, and the memory store's operations on it. Each key holds a source or a
hook, the one inserted last; every insert records the ancestors of its key as directories.
-/
namespace Loadable

structure Tables where
  features : Registry := {}
  hooks : HookTable := {}
  sources : KeyMap Bytes := {}
  directories : List Key := []

inductive Entry where
  | source (data : Bytes)
  | hook (h : Hook)
  | directory
  deriving DecidableEq

namespace Tables

def isDirectory (t : Tables) (key : Key) : Bool :=
  t.directories.contains key || Key.isRoot key

def isFile (t : Tables) (key : Key) : Bool :=
  t.sources.contains key || t.hooks.contains key

def has (t : Tables) (key : Key) : Bool :=
  t.isFile key || t.isDirectory key

def entry? (t : Tables) (key : Key) : Option Entry :=
  match t.sources.get? key with
  | some data => some (.source data)
  | none =>
    match t.hooks.get? key with
    | some h => some (.hook h)
    | none => if t.isDirectory key then some .directory else none

def read (t : Tables) (key : Key) : Except Fault Bytes :=
  match t.sources.get? key with
  | some data => .ok data
  | none => if t.isDirectory key then .error (.isDirectory key none) else .error (.noSuchFile key none)

/-- An insert must not replace a directory, nor stand below a source or a hook. -/
def checkInsert (t : Tables) (key : Key) : Except Fault Unit :=
  if t.isDirectory key then .error (.replacesDirectory key)
  else match (Key.parents key).find? t.isFile with
    | some parent => .error (.parentNotDirectory parent key)
    | none => .ok ()

def addDirectories (t : Tables) (keys : List Key) : Tables :=
  { t with directories := t.directories ++ keys.filter (!t.directories.contains ·) }

def write (t : Tables) (key : Key) (data : Bytes) : Except Fault Tables := do
  t.checkInsert key
  return { t with hooks := t.hooks.erase key, sources := t.sources.insert key data }.addDirectories
    (Key.parents key)

/-- The source at the key makes room before the hook is looked at. -/
def register (t : Tables) (key : Key) (given : GivenHook) : Except Raised Unit × Tables :=
  match t.checkInsert key with
  | .error fault => (.error (.fault fault), t)
  | .ok () =>
    let t := { t with sources := t.sources.erase key }
    match t.hooks.register key given with
    | .error mishap => (.error (.mishap mishap), t)
    | .ok hooks => (.ok (), { t with hooks := hooks }.addDirectories (Key.parents key))

end Tables

end Loadable
