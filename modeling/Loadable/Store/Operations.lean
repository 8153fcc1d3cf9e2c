import Loadable.Store.Lookup
/-!
What callers ask of a store, by path.
-/
namespace Loadable

namespace Store

def contains (s : Store) (path : GivenPath) : Act Bool := do
  match s.backend with
  | .searchPath roots => return (← s.findIn path roots).isSome
  | _ => s.containsKey (← s.resolve path)

def isDirectory (s : Store) (path : GivenPath) : Act Bool := do
  match s.backend with
  | .searchPath roots =>
    match ← s.findIn path roots with
    | some (_, key) => OnHost.isDirectory key
    | none => return false
  | _ => s.keyIsDirectory (← s.resolve path)

def read (s : Store) (path : GivenPath) : Act Bytes := do
  match s.backend with
  | .searchPath roots =>
    let (_, key) ← s.findOrRaise roots path
    OnHost.read key
  | _ => s.readKey (← s.resolve path)

def entry? (s : Store) (path : GivenPath) : Act (Option Entry) := do
  let key ← s.resolve path
  return (← Act.world).tables.entry? key

def extension? (s : Store) (path : GivenPath) : Act (Option Hook) := do
  let key ← s.resolve path
  return (← Act.world).tables.hooks.get? key

def servedBy (s : Store) (path : GivenPath) : Act Text := do
  match s.backend with
  | .memory | .native => return s.name
  | .hybrid nativeCwd =>
    match ← s.route (← s.resolve path) with
    | .memory => return s.memoryPart.name
    | .native => return (s.nativeAt nativeCwd).name
  | .searchPath roots =>
    match ← s.findIn path roots with
    | some (root, _) => return root
    | none => return s.name

def writeMemory (s : Store) (key : Key) (data : Bytes) : Act Unit := do
  Act.onTables fun t =>
    match t.write key data with
    | .ok t => (.ok (), t)
    | .error fault => (.error (.fault fault), t)
  s.log .debug .memory
    (("Wrote " : Text) ++ Text.ofNat data.length ++ (" bytes to " : Text) ++ key.display)

def writeHost (s : Store) (key : Key) (data : Bytes) : Act Unit := do
  Act.onHost (·.writeKey key data)
  Act.onTables fun t => (.ok (), { t with hooks := t.hooks.erase key })
  s.log .debug .native
    (("Wrote " : Text) ++ Text.ofNat data.length ++ (" bytes to " : Text) ++ key.display)

def writeKey (s : Store) (key : Key) (data : Bytes) : Act Unit := do
  match s.backend with
  | .memory => s.writeMemory key data
  | .native => s.writeHost key data
  | .hybrid nativeCwd =>
    match ← s.route key with
    | .memory => s.memoryPart.writeMemory key data
    | .native => (s.nativeAt nativeCwd).writeHost key data
  | .searchPath _ => Act.raise (.fault (.unsupported .write key))

def write (s : Store) (path : GivenPath) (data : GivenData) : Act Unit := do
  let key ← s.resolve path
  let bytes ← Act.ofMishap data.asBytes
  s.writeKey key bytes

def logHook (replaced : Bool) (key : Key) : Act Unit :=
  Act.log .debug .registry none
    (("Extension hook " : Text) ++ (if replaced then ("replaced" : Text) else ("registered" : Text))
      ++ (": " : Text) ++ key.display)

def registerMemory (key : Key) (hook : GivenHook) : Act Unit := do
  let replaced := (← Act.world).tables.hooks.contains key
  Act.onTables (·.register key hook)
  logHook replaced key

/-- On the host a hook may stand anywhere. -/
def registerHost (key : Key) (hook : GivenHook) : Act Unit := do
  let replaced := (← Act.world).tables.hooks.contains key
  Act.onTables fun t =>
    match t.hooks.register key hook with
    | .ok hooks => (.ok (), { t with hooks := hooks })
    | .error mishap => (.error (.mishap mishap), t)
  logHook replaced key

def registerKey (s : Store) (key : Key) (hook : GivenHook) : Act Unit := do
  match s.backend with
  | .memory => registerMemory key hook
  | .native => registerHost key hook
  | .hybrid _ =>
    match ← s.route key with
    | .memory => registerMemory key hook
    | .native => registerHost key hook
  | .searchPath _ => Act.raise (.fault (.unsupported .registerExtension key))

def registerExtension (s : Store) (path : GivenPath) (hook : GivenHook) : Act Unit := do
  s.registerKey (← s.resolve path) hook

end Store

end Loadable
