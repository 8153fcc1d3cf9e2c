import Loadable.Host.Change
/-!
A host laid out from a list of what stands below one directory.
-/
namespace Loadable

structure Layout where
  directories : List Bytes := []
  files : List (Bytes × Bytes) := []
  /-- Each link with its target. -/
  links : List (Bytes × Bytes) := []
  /-- Files that cannot be opened for reading under their own path. -/
  denied : List Bytes := []

abbrev DirectoryChain := List (Bytes × Nat)

namespace DirectoryChain

def place (chain : DirectoryChain) : Place :=
  chain.map (·.1)

end DirectoryChain

namespace Host

def bare (base : DirectoryChain) : Host where
  nodes := (List.range base.length).zip base |>.map fun (n, _, mode) =>
    ((DirectoryChain.place base).take (n + 1), .directory mode)
  cwd := base.place

def apply (host : Host) (change : HostChange Unit) : Host :=
  (change.run.run host).2

def applyBelow (host : Host) (path : Bytes) (change : HostChange Unit) : Host :=
  (host.apply (HostChange.makeDirectories (dirName path))).apply change

/-- Directories come first, then files, then links; what is above them is made as needed. -/
def lay (base : DirectoryChain) (layout : Layout) : Host :=
  let full (path : Bytes) : Bytes := joinPath base.place.path path
  let withDirectories := layout.directories.foldl
    (fun host path => host.apply (HostChange.makeDirectories (full path))) (bare base)
  let withFiles := layout.files.foldl (fun host (path, data) =>
    host.applyBelow (full path) (HostChange.writeFile (full path) data)) withDirectories
  let withLinks := layout.links.foldl (fun host (path, target) =>
    host.applyBelow (full path) (HostChange.symlink (full path) target)) withFiles
  { withLinks with denied := layout.denied.map full }

end Host

end Loadable
