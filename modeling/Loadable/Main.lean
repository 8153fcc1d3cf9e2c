import Loadable.CommandLine.Command
/-!
The program: it looks at the places of the real host that a command may ask about, and runs the
command on what it saw.
-/
namespace Loadable

namespace CommandLine

/-- What stands at a place of the real host. A link leads straight to what it stands for; a file that
cannot be read permits nothing. -/
def realNode? (place : Place) : IO (Option Node) := do
  let some path := String.fromUTF8? place.path.toByteArray | return none
  let .ok real ← (IO.FS.realPath path).toBaseIO | return none
  if real.toString ≠ path then return some (.link (Bytes.ofString real.toString))
  if ← real.isDir then return some (.directory (Host.directoryMode {}))
  let .ok data ← (IO.FS.readBinFile real).toBaseIO | return some (.file [] 0)
  return some (.file data.toList (Host.fileMode {}))

partial def look (host : Host) (dir : Place) : List Bytes → IO Host
  | [] => return host
  | name :: rest => do
    if name = [] ∨ name = [dot] then look host dir rest
    else if name = [dot, dot] then look host dir.dropLast rest
    else
      let place := dir ++ [name]
      let some node ← realNode? place | return host
      let seen := host.put place node
      match node with
      | .directory _ => look seen place rest
      | .link target => look seen [] (pathNames target ++ rest)
      | .file _ _ => return seen

def realHost (cwd : Place) (paths : List Bytes) : IO Host :=
  paths.foldlM (fun host path => look host (walkStart cwd path) (pathNames path)) { cwd := cwd }

def processEnvironment : IO Environment := do
  match ← IO.getEnv "RUBYLIB" with
  | some value => return [(Text.ofString "RUBYLIB", Text.ofString value)]
  | none => return []

def usage : String :=
  "Usage: loadpath [--log-level LEVEL] (resolve | locate | cat) [OPTIONS] PATH\n"

def print (ending : Ending) : IO Unit := do
  (← IO.getStdout).write ending.stdout.toByteArray
  let stderr ← IO.getStderr
  stderr.putStr (String.ofList ending.stderr.toChars)
  if ending.exitCode = 2 then stderr.putStr usage
  if let some name := ending.mishap then stderr.putStr s!"{name}\n"

end CommandLine

end Loadable

open Loadable in
def main (words : List String) : IO UInt32 := do
  let texts := words.map Text.ofString
  let cwd := (← IO.currentDir).toString
  let environment ← CommandLine.processEnvironment
  let paths := (CommandLine.hostPaths cwd environment texts).eraseDups
  let host ← CommandLine.realHost (pathNames (Bytes.ofString cwd)) paths
  let ending := CommandLine.run host environment texts
  CommandLine.print ending
  return ending.exitCode.toUInt32
