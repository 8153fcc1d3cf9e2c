import Loadable.Host.Failure
import Loadable.Path.Lexical
/-!
The host's file system: what stands at each place, who may use it how, and the directory the process
works in. The process owns all that there is, so the owner's permissions are those that count.
-/
namespace Loadable

/-- A place on the host: the names that lead to it from the root. -/
abbrev Place := List Bytes

inductive Node where
  | file (data : Bytes) (mode : Nat)
  | directory (mode : Nat)
  | link (target : Bytes)
  deriving DecidableEq

structure Host where
  /-- The root itself is not listed. -/
  nodes : List (Place × Node) := []
  cwd : Place := []
  /-- Paths whose opening for reading is denied in exactly this spelling. -/
  denied : List Bytes := []
  /-- The permissions that nothing new gets when it is made. -/
  umask : Nat := 0o022

/-- What permission bits permit: to read a file or list a directory, to write a file or change a
directory, to enter a directory. -/
inductive Use where
  | read
  | write
  | enter
  deriving DecidableEq

namespace Use

def bit : Use → Nat
  | read => 8
  | write => 7
  | enter => 6

def permitted (mode : Nat) (use : Use) : Bool :=
  mode.testBit use.bit

end Use

namespace Place

def path (place : Place) : Bytes :=
  slash :: joinNames place

/-- A directory that was removed while the process worked in it has no place any more. No name has
a slash in it, so one in front marks the names of such directories. -/
def isLost (place : Place) : Bool :=
  place.any fun name => name.head? = some slash

/-- All names but the first `kept` are those of removed directories. -/
def lose (kept : Nat) (place : Place) : Place :=
  place.take kept ++ (place.drop kept).map (slash :: ·)

end Place

namespace Host

/-- A removed directory is there for the process that works in it or below it. -/
def node? (host : Host) (place : Place) : Option Node :=
  if place = [] then some (.directory 0o755)
  else if place.isLost then if place.isPrefixOf host.cwd then some (.directory 0o755) else none
  else (host.nodes.find? (·.1 = place)).map (·.2)

def put (host : Host) (place : Place) (node : Node) : Host :=
  { host with nodes := host.nodes.filter (·.1 ≠ place) ++ [(place, node)] }

def erase (host : Host) (place : Place) : Host :=
  { host with nodes := host.nodes.filter (·.1 ≠ place) }

def eraseDirectory (host : Host) (place : Place) : Host :=
  { host.erase place with
    cwd := if place.isPrefixOf host.cwd then host.cwd.lose (place.length - 1) else host.cwd }

def names (host : Host) (dir : Place) : List Bytes :=
  host.nodes.filterMap fun (place, _) => if place.dropLast = dir then place.getLast? else none

def permits (host : Host) (use : Use) (place : Place) : Bool :=
  match host.node? place with
  | some (.file _ mode) | some (.directory mode) => use.permitted mode
  | some (.link _) => true
  | none => false

/-- Names may be added to a directory and taken from it. Nothing comes into a removed one. -/
def checkAlterable (host : Host) (dir : Place) : Except HostFailure Unit :=
  if dir.isLost then .error .absent
  else if host.permits .write dir && host.permits .enter dir then .ok ()
  else .error .denied

def cwdPath (host : Host) : Except HostFailure Bytes :=
  if host.cwd.isLost then .error .absent else .ok host.cwd.path

def granted (host : Host) (mode : Nat) : Nat :=
  mode - (mode &&& host.umask)

def fileMode (host : Host) : Nat :=
  host.granted 0o666

def directoryMode (host : Host) : Nat :=
  host.granted 0o777

/-- The longest name a directory takes, and the number of bytes no path reaches. -/
def nameLimit : Nat := 255

def pathLimit : Nat := 4096

def linkLimit : Nat := 40

end Host

end Loadable
