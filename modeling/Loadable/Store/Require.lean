import Loadable.Store.Operations
/-!
Requiring and loading. A feature is registered only when its hook or source has run to its end; a
hook is run in place of source text at the same key.
-/
namespace Loadable

abbrev ScriptRunner := Text → Act Unit

/-- The script a source names on its first line, behind an `@`. -/
def scriptOf? : Bytes → Option Text
  | [] => none
  | b :: source =>
    if b = PathLetter.ascii '@' then some (Text.decode (source.takeWhile (· ≠ PathLetter.ascii '\n')))
    else none

def runSource (run : ScriptRunner) (source : Bytes) (filename : Text) : Act Unit := do
  Act.note (.evaluated filename source)
  match scriptOf? source with
  | some script => run script
  | none => return ()

def evaluate (run : ScriptRunner) (source : Bytes) (filename : Text) : Act Nat := do
  Act.asFile filename <| Act.recorded (.source filename source) (fun () => .nothing) <|
    runSource run source filename
  return source.length

def callHook (run : ScriptRunner) (key : Key) (hook : Hook) : Act Unit :=
  Act.recorded (.hook key hook) (fun () => .nothing) do
    Act.note (.hookCalled hook.script)
    run hook.script

namespace Store

def logAlreadyLoaded (s : Store) (source : LogSource) (key : Key) : Act Unit :=
  s.log .debug source (("Already loaded: " : Text) ++ key.display)

/-- A mishap in a hook becomes the failure of that hook; a fault keeps its own kind, so that the
innermost hook around a mishap is the one that is named. -/
def runHook (run : ScriptRunner) (s : Store) (key : Key) (hook : Hook) : Act Unit := do
  s.log .debug .protocol
    (("Running extension hook " : Text) ++ hook.name ++ (" for " : Text) ++ key.display)
  match ← Act.attempt (callHook run key hook) with
  | .ok () => return ()
  | .error (.fault fault) => Act.raise (.fault fault)
  | .error (.mishap mishap) =>
    if mishap.isFailure then
      s.log .warning .protocol
        (("Extension hook " : Text) ++ hook.name ++ (" failed for " : Text) ++ key.display ++
          (": " : Text) ++ mishap.shown)
      Act.raise (.fault (.hookFailed key hook.name mishap))
    else Act.raise (.mishap mishap)

def execute (run : ScriptRunner) (s : Store) (key : Key) : Act Unit := do
  match (← Act.world).tables.hooks.get? key with
  | some hook => s.runHook run key hook
  | none =>
    let source ← s.readKey key
    let _ ← evaluate run source (Text.decode key)

def markLoaded (feature : Key) : Act Unit := do
  let known := (← Act.world).tables.features.isLoaded feature
  Act.onTables fun t => (.ok (), { t with features := t.features.mark feature })
  if known then return ()
  else Act.log .debug .registry none (("Feature registered: " : Text) ++ feature.display)

def requireFeature (run : ScriptRunner) (s : Store) (key feature : Key) : Act Outcome := do
  if (← Act.world).tables.features.isLoaded feature then
    s.logAlreadyLoaded .protocol key
    return .alreadyLoaded
  else
    s.execute run key
    markLoaded feature
    return .loaded

/-- The feature's key is computed before its body runs. -/
def requireKey (run : ScriptRunner) (s : Store) (key : Key) : Act Outcome := do
  let feature ← s.featureKey key
  Act.recorded (.require feature) .outcome (s.requireFeature run key feature)

def loadKey (run : ScriptRunner) (s : Store) (key : Key) : Act Outcome :=
  Act.recorded (.load key) .outcome do
    s.execute run key
    return .executed

def registeredIn (s : Store) (path : GivenPath) : List Text → Act (Option (Key × Key))
  | [] => return none
  | root :: roots => do
    let key ← Act.of ((s.nativeAt root).ownKey path)
    let feature ← OnHost.featureKey s.flavor key
    if (← Act.world).tables.features.isLoaded feature then return some (key, feature)
    else registeredIn s path roots

def isRequired (s : Store) (path : GivenPath) : Act Bool := do
  match s.backend with
  | .searchPath roots => return (← s.registeredIn path roots).isSome
  | _ =>
    let feature ← s.featureKey (← s.resolve path)
    return (← Act.world).tables.features.isLoaded feature

/-- In a search path the registry answers first, for a required file may be gone from the host. -/
def require (run : ScriptRunner) (s : Store) (path : GivenPath) : Act Outcome := do
  match s.backend with
  | .searchPath roots =>
    match ← s.registeredIn path roots with
    | some (key, feature) =>
      Act.recorded (.require feature) .outcome do
        s.logAlreadyLoaded .searchPath key
        return .alreadyLoaded
    | none =>
      let (root, key) ← s.findOrRaise roots path
      (s.nativeAt root).requireKey run key
  | _ => s.requireKey run (← s.resolve path)

def load (run : ScriptRunner) (s : Store) (path : GivenPath) : Act Outcome := do
  match s.backend with
  | .searchPath roots =>
    let (root, key) ← s.findOrRaise roots path
    (s.nativeAt root).loadKey run key
  | _ => s.loadKey run (← s.resolve path)

end Store

end Loadable
