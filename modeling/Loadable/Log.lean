import Loadable.Text.CodePoint
/-!
Log records and the handler that shows them.
-/
namespace Loadable

inductive LogLevel where
  | notSet
  | debug
  | info
  | warning
  | error
  | critical
  deriving DecidableEq

namespace LogLevel

def rank : LogLevel → Nat
  | notSet => 0
  | debug => 10
  | info => 20
  | warning => 30
  | error => 40
  | critical => 50

def name : LogLevel → String
  | notSet => "NOTSET"
  | debug => "DEBUG"
  | info => "INFO"
  | warning => "WARNING"
  | error => "ERROR"
  | critical => "CRITICAL"

def ofName? (name : String) : Option LogLevel :=
  if name = "WARN" then some warning
  else if name = "FATAL" then some critical
  else [notSet, debug, info, warning, error, critical].find? (·.name = name)

end LogLevel

inductive LogSource where
  | logging
  | stores
  | protocol
  | memory
  | native
  | hybrid
  | searchPath
  | registry
  | interpreter
  deriving DecidableEq

namespace LogSource

def name : LogSource → Text
  | logging => "loadpath.utils"
  | stores => "loadpath.filesystem"
  | protocol => "loadpath.filesystem.base"
  | memory => "loadpath.filesystem.memory"
  | native => "loadpath.filesystem.native"
  | hybrid => "loadpath.filesystem.hybrid"
  | searchPath => "loadpath.filesystem.search_path"
  | registry => "loadpath.filesystem.registry"
  | interpreter => "loadpath.interpreter"

end LogSource

structure LogRecord where
  level : LogLevel
  logger : Text
  /-- The store that logs, if a store does. -/
  store : Option Text := none
  message : Text
  deriving DecidableEq

namespace LogRecord

def storeTag (r : LogRecord) : Text :=
  r.store.getD ("-" : Text)

/-- The logger without a name is the root of all loggers. -/
def loggerName (r : LogRecord) : Text :=
  if r.logger = [] then "root" else r.logger

def line (r : LogRecord) : Text :=
  Text.ofString r.level.name ++ (" - [" : Text) ++ r.loggerName ++ ("] [" : Text) ++ r.storeTag ++
    ("] " : Text) ++ r.message ++ ("\n" : Text)

end LogRecord

structure LogConsole where
  installed : Bool := false
  level : LogLevel := .warning
  shown : Text := []

namespace LogConsole

def emit (c : LogConsole) (r : LogRecord) : LogConsole :=
  if c.installed && c.level.rank ≤ r.level.rank && r.level ≠ .notSet then
    { c with shown := c.shown ++ r.line }
  else c

def install (c : LogConsole) (level : LogLevel) : LogConsole :=
  emit { c with installed := true, level := level }
    { level := .debug, logger := LogSource.logging.name,
      message := ("Load path logging enabled at " : Text) ++ Text.ofString level.name }

def handlers (c : LogConsole) : Nat :=
  if c.installed then 1 else 0

end LogConsole

end Loadable
