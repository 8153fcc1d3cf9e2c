import Loadable.CommandLine.Options
import Loadable.Fault.Report
import Loadable.Store.Build
import Loadable.Text.ControlSequence
/-!
The commands that show how paths resolve: `resolve` prints the canonical form of a path, `locate`
tells where a store has it, and `cat` writes out what it holds.
-/
namespace Loadable

namespace CommandLine

structure Ending where
  exitCode : Nat := 0
  stdout : Bytes := []
  stderr : Text := []
  /-- The name of a mishap that nothing handled. -/
  mishap : Option String := none
  deriving DecidableEq

inductive Misuse where
  | usage
  | mishap (name : String)
  deriving DecidableEq

def Misuse.ending : Misuse → Ending
  | usage => { exitCode := 2 }
  | mishap name => { exitCode := 1, mishap := some name }

inductive CommandName where
  | resolve
  | locate
  | cat
  deriving DecidableEq

namespace CommandName

def ofName? (t : Text) : Option CommandName :=
  if t = Text.ofString "resolve" then some resolve
  else if t = Text.ofString "locate" then some locate
  else if t = Text.ofString "cat" then some cat
  else none

def optionNames : CommandName → List Text
  | resolve => ["--cwd", "--flavor"].map Text.ofString
  | locate | cat => ["--backend", "--cwd", "--flavor", "--search-path"].map Text.ofString

end CommandName

def require (condition : Bool) : Except Misuse Unit :=
  if condition then .ok () else .error .usage

/-- A search path may be absent, but must not be a file, nor a directory that cannot be read. -/
def checkSearchPath (host : Host) (path : Text) : Except Misuse Unit :=
  match path.encode? with
  | none => .error (.mishap "UnicodeEncodeError")
  | some bytes =>
    if Host.hasNul bytes then .error (.mishap "ValueError")
    else match host.stat bytes with
      | .ok (place, .directory _) => require (host.permits .read place)
      | .ok (_, .file _ _) => .error .usage
      | _ => .ok ()

def checkOption (host : Host) (w : Words) (name : Text) : Except Misuse Unit :=
  if name = Text.ofString "--backend" then
    require ((w.value? "--backend").all fun v => (BackendName.ofName? v).isSome)
  else if name = Text.ofString "--flavor" then
    require ((w.value? "--flavor").all fun v => (Flavor.ofName? v).isSome)
  else if name = Text.ofString "--search-path" then
    (w.values "--search-path").forM (checkSearchPath host)
  else .ok ()

def checkWords (host : Host) (w : Words) : Except Misuse Text := do
  (w.options.map (·.1)).forM (checkOption host w)
  match w.arguments with
  | [path] => return path
  | _ => throw .usage

/-- Lines are written one by one, without control sequences; a line with a surrogate cannot be
written. -/
def writeLines : List Text → Ending
  | [] => {}
  | line :: lines =>
    let shown := line.withoutControlSequences
    match shown.any CodePoint.isSurrogate, shown.encode? with
    | false, some bytes =>
      let rest := writeLines lines
      { rest with stdout := bytes ++ Bytes.ofString "\n" ++ rest.stdout }
    | _, _ => { exitCode := 1, mishap := some "UnicodeEncodeError" }

def failure (message : Text) : Ending :=
  let line := ("Error: " : Text) ++ message ++ ("\n" : Text)
  { exitCode := 1, stderr := line.withoutControlSequences }

def raisedEnding : Raised → Ending
  | .fault fault => failure fault.report.summary
  | .mishap mishap => { exitCode := 1, mishap := some mishap.name }

def flavorOf (w : Words) : Flavor :=
  ((w.value? "--flavor").bind Flavor.ofName?).getD .host

def runResolve (w : Words) (path : Text) : Ending :=
  match (flavorOf w).resolve path ((w.value? "--cwd").getD ("/" : Text)) with
  | .ok key => writeLines [key.display]
  | .error stretch => raisedEnding (.fault (.unencodable stretch))

def configOf (environment : Environment) (w : Words) : Checked Config :=
  let given (name : String) (fieldName : Text) : Fields :=
    match w.value? name with
    | some v => [(fieldName, .text v)]
    | none => []
  Config.ofFields environment
    (given "--backend" "backend" ++ given "--cwd" "cwd" ++ given "--flavor" "flavor" ++
      [(Text.ofString "search_paths", .list ((w.values "--search-path").map .text))])

def labelled (label : String) (shown : Text) : Text :=
  Text.ofString label ++ List.replicate (12 - label.length) (.scalar ' ') ++ .scalar ' ' :: shown

def yesNo (b : Bool) : Text :=
  if b then "yes" else "no"

def locate (s : Store) (path : Text) : Act Ending := do
  let key ← s.resolve (.text path)
  let present ← s.contains (.text path)
  let directory ← s.isDirectory (.text path)
  let servedBy ← s.servedBy (.text path)
  return writeLines [labelled "Path" key.display, labelled "Backend" s.name,
    labelled "Served by" servedBy, labelled "Exists" (yesNo present),
    labelled "Directory" (yesNo directory)]

def cat (s : Store) (path : Text) : Act Ending := do
  return { stdout := ← s.read (.text path) }

def runOnStore (host : Host) (environment : Environment) (w : Words) (command : Store → Act Ending) :
    List LogRecord × Ending :=
  match configOf environment w with
  | .error issues =>
    let message := (issues.head?.map (·.kind.message)).getD ""
    ([], failure (("Invalid configuration: " : Text) ++ Text.ofString message))
  | .ok config =>
    let commanded : Act Ending := do command (← Store.build config.choice)
    match commanded { host := host } with
    | (.ok ending, w) => (w.log.reverse, ending)
    | (.error raised, w) => (w.log.reverse, raisedEnding raised)

def runCommand (host : Host) (environment : Environment) (command : CommandName) (w : Words)
    (path : Text) : List LogRecord × Ending :=
  match command with
  | .resolve => ([], runResolve w path)
  | .locate => runOnStore host environment w (locate · path)
  | .cat => runOnStore host environment w (cat · path)

def levelOf? (t : Text) : Option LogLevel :=
  [.debug, .info, .warning, .error].find? fun level =>
    Text.ofString level.name = t.map fun
      | .scalar c => .scalar c.toUpper
      | .surrogate n => .surrogate n

def consoleOf (w : Words) : Except Misuse LogConsole :=
  match w.value? "--log-level" with
  | none => .ok {}
  | some given =>
    match levelOf? given with
    | some level => .ok (LogConsole.install {} level)
    | none => .error .usage

/-- The host paths a command may look at: all that its words and the environment name, as it stands
and resolved against every directory that could be meant. -/
def hostPaths (cwd : Text) (environment : Environment) (words : List Text) : List Bytes :=
  let values := words.filterMap fun word => (Words.splitValue word).2
  let named := cwd :: environment.searchPaths ++ words ++ values
  let directories := named ++ named.map (absolutePath cwd)
  let resolved (flavor : Flavor) : List Bytes :=
    directories.flatMap fun directory =>
      named.filterMap fun path => (flavor.resolve path directory).toOption
  named.filterMap Text.encode? ++ resolved .posix ++ resolved .nt

def run (host : Host) (environment : Environment) (words : List Text) : Ending :=
  let result : Except Misuse Ending := do
    let some all := Words.ofList? [Text.ofString "--log-level"] false words | throw .usage
    let console ← consoleOf all
    let name :: rest := all.arguments | throw .usage
    let some command := CommandName.ofName? name | throw .usage
    let some w := Words.ofList? command.optionNames true rest | throw .usage
    match checkWords host w with
    | .error .usage => throw .usage
    | .error (.mishap name) =>
      return { (Misuse.mishap name).ending with stderr := console.shown }
    | .ok path =>
      let (log, ending) := runCommand host environment command w path
      let shown := (log.foldl LogConsole.emit console).shown
      return { ending with stderr := (shown ++ ending.stderr).withoutSurrogates }
  match result with
  | .ok ending => ending
  | .error misuse => misuse.ending

end CommandLine

end Loadable
