import Loadable.Host.Change
import Loadable.Session.Listing
import Loadable.Session.Step
/-!
Running a session, step by step. Scripts run inside sources and hooks and can take any step
themselves, so runs nest; how deep is bounded by the number of script runs there are.
-/
namespace Loadable

namespace Store

def part (s : Store) : Part → Except Mishap Store
  | .whole => .ok s
  | .memory =>
    match s.backend with
    | .hybrid _ => .ok s.memoryPart
    | _ => .error .noSuchOperation
  | .native =>
    match s.backend with
    | .hybrid nativeCwd => .ok (s.nativeAt nativeCwd)
    | _ => .error .noSuchOperation
  | .root index =>
    match s.backend with
    | .searchPath roots =>
      match roots[index]? with
      | some root => .ok (s.nativeAt root)
      | none => .error .noSuchRoot
    | _ => .error .noSuchOperation

end Store

namespace Entry

def answer : Entry → Answer
  | source data => .source data
  | hook h => .hook h.script h.name
  | directory => .directory

end Entry

namespace Session

def noSuchOperation {α : Type} : Act α :=
  Act.raise (.mishap .noSuchOperation)

def changeHost (change : HostChange Unit) : Act Answer := do
  Act.onHost fun host =>
    match change.run.run host with
    | (.ok (), host) => (.ok (), host)
    | (.error mishap, host) => (.error (.mishap mishap), host)
  return .nothing

def octal (mode : Nat) : Text :=
  (Nat.toDigits 8 mode).map .scalar

def hostBytes (path : Text) : Act Bytes :=
  match path.encode with
  | .ok bytes => return bytes
  | .error stretch => Act.raise (.mishap (.unencodable stretch))

def below (base : Place) (file : Text) : Act Bytes :=
  hostBytes (joinPath (Text.decode base.path) file)

/-- Writes a file. Data that has no bytes is refused only when the file is open, and empty. -/
def writeFile (path : Bytes) : GivenData → Act Answer
  | .bytes data => changeHost (HostChange.writeFile path data)
  | .unusable typeName => do
    let _ ← changeHost (HostChange.writeFile path [])
    Act.raise (.mishap (.notBytes typeName))

def hostMode (path : Bytes) : Act Nat := do
  if Host.hasNul path then Act.raise (.mishap .nulInPath)
  else match (← Act.world).host.mode path with
    | .ok mode => return mode
    | .error failure => Act.raise (.mishap (.host failure [path]))

def act (run : ScriptRunner) (base : Place) (s : Store) : Action → Act Answer
  | .resolve path => return .bytes (← s.resolve path)
  | .contains path => return .flag (← s.contains path)
  | .isDirectory path => return .flag (← s.isDirectory path)
  | .isRequired path => return .flag (← s.isRequired path)
  | .read path => return .bytes (← s.read path)
  | .write path data => do
    s.write path data
    return .nothing
  | .registerExtension path hook => do
    s.registerExtension path hook
    return .nothing
  | .extension path => do
    match ← s.extension? path with
    | some h => return .script h.script
    | none => return .nothing
  | .servedBy path => return .text (← s.servedBy path)
  | .require path => return .outcome (← s.require run path)
  | .load path => return .outcome (← s.load run path)
  | .entry path => do
    match s.backend with
    | .memory => return ((← s.entry? path).map Entry.answer).getD .nothing
    | _ => noSuchOperation
  | .featureKey key => return .bytes (← s.featureKey key)
  | .delegateFor key => do
    match s.backend with
    | .hybrid nativeCwd =>
      match ← s.route key with
      | .memory => return .text s.memoryPart.name
      | .native => return .text (s.nativeAt nativeCwd).name
    | _ => noSuchOperation
  | .keyExists key => return .flag (← s.containsKey key)
  | .keyIsDirectory key => return .flag (← s.keyIsDirectory key)
  | .keyRead key => return .bytes (← s.readKey key)
  | .describe => return .description s.description
  | .roots =>
    match s.backend with
    | .searchPath roots => return .texts roots
    | _ => noSuchOperation
  | .features => return .keys (← Act.world).tables.features.loaded
  | .hookCount => return .count (← Act.world).tables.hooks.size
  | .requireName name => return .flag (← Interpreter.require run s name)
  | .loadName name => return .flag (← Interpreter.load run s name)
  | .requireRelative name => return .flag (← Interpreter.requireRelative run s name)
  | .currentFile => do
    match ← Interpreter.currentFile? with
    | some file => return .text file
    | none => return .nothing
  | .evaluate source filename => do
    let source ← Act.ofMishap source.asBytes
    return .count (← Loadable.evaluate run source filename)
  | .preloadSource path data => do
    Interpreter.preloadSource s path data
    return .nothing
  | .preloadHook path hook => do
    Interpreter.preloadHook s path hook
    return .nothing
  | .raise raised => Act.raise raised
  | .hostWrite file data => do writeFile (← below base file) data
  | .hostMakeDirectories file => do changeHost (HostChange.makeDirectories (← below base file))
  | .hostRemove file => do changeHost (HostChange.removeTree (← below base file))
  | .hostLink file target => do
    let target ← hostBytes target
    changeHost (HostChange.symlink (← below base file) target)
  | .hostChangeDirectory file => do changeHost (HostChange.changeDirectory (← below base file))
  | .hostChangeMode file mode => do changeHost (HostChange.changeMode (← below base file) mode)
  | .hostMode file => return .text (octal (← hostMode (← below base file)))
  | .hostList => return .listing (← Act.ofMishap ((← Act.world).host.listing base))

def step (run : ScriptRunner) (setup : Setup) (st : Step) : Act Answer := do
  if st.action.isOfStore then
    act run setup.base (← Act.ofMishap (setup.store.part st.part)) st.action
  else act run setup.base setup.store st.action

/-- The steps of one script run. A rescued error is noted and the run goes on. -/
def runSteps (perform : Step → Act Answer) : List ScriptStep → Act Unit
  | [] => return ()
  | st :: rest => do
    match ← Act.attempt (perform st.step) with
    | .ok answer =>
      Act.note (.stepDone st.step.action.name answer)
      runSteps perform rest
    | .error raised =>
      if st.rescue then
        Act.note (.stepRescued st.step.action.name raised)
        runSteps perform rest
      else Act.raise raised

/-- The steps of a script's next run, which is counted when it starts. -/
def nextRun (scripts : Scripts) (script : Text) : Act (List ScriptStep) := do
  let past := (← Act.world).started.count script
  Act.change fun w => { w with started := script :: w.started }
  match scripts.find? (·.1 = script) with
  | some (_, runs) => return runs[past]?.getD []
  | none => return []

theorem nextRun_eq (scripts : Scripts) (script : Text) (w : World) :
    nextRun scripts script w =
      (.ok (((scripts.find? (·.1 = script)).bind (·.2[w.started.count script]?)).getD []),
        { w with started := script :: w.started }) := by
  simp only [nextRun, Act.bind_apply, Act.world, Act.change]
  cases scripts.find? (·.1 = script) with
  | none => rfl
  | some entry => rfl

/-- Runs a script, with script runs nested at most `depth` deep inside it. -/
def runScript (setup : Setup) : (depth : Nat) → ScriptRunner
  | 0, script => do
    let _ ← nextRun setup.scripts script
  | depth + 1, script => do
    runSteps (step (runScript setup depth) setup) (← nextRun setup.scripts script)

/-- A script run that contains another one has steps, and no run is used twice, so scripts nest no
deeper than there are runs. -/
def depth (scripts : Scripts) : Nat :=
  (scripts.flatMap (·.2)).length

def perform (setup : Setup) (st : Step) : Act Answer :=
  step (runScript setup (depth setup.scripts)) setup st

structure StepReport where
  result : Except Raised Answer
  features : Nat
  events : List Event
  log : List LogRecord

def observe {α : Type} (x : Act α) (w : World) : Except Raised α × World :=
  x { w with events := [], log := [] }

def report (setup : Setup) (st : Step) (w : World) : StepReport × World :=
  match observe (perform setup st) w with
  | (result, w) => (⟨result, w.tables.features.size, w.events.reverse, w.log.reverse⟩, w)

def run (setup : Setup) : List Step → World → List StepReport × World
  | [], w => ([], w)
  | st :: rest, w =>
    match report setup st w with
    | (r, w) =>
      match run setup rest w with
      | (rs, w) => (r :: rs, w)

end Session

end Loadable
