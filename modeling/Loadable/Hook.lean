import Loadable.Fault.Basic
import Loadable.KeyMap
import Loadable.Value
/-!
Extension hooks: callbacks that stand in for source text at a key. A hook runs the script it is
named for.
-/
namespace Loadable

structure Hook where
  script : Text
  /-- The name the callback was defined under, if it has one. -/
  definedAs : Option Text := none
  /-- How the callback describes itself; without it, as the hook of its script. -/
  description : Option Text := none
  deriving DecidableEq

namespace Hook

def name (h : Hook) : Text :=
  match h.definedAs with
  | some (c :: t) => c :: t
  | _ => h.description.getD (("<hook " : Text) ++ h.script ++ (">" : Text))

end Hook

inductive GivenHook where
  | hook (h : Hook)
  | uncallable (typeName : String)
  deriving DecidableEq

abbrev HookTable := KeyMap Hook

namespace HookTable

def register (table : HookTable) (key : Key) : GivenHook → Except Mishap HookTable
  | .hook h => .ok (table.insert key h)
  | .uncallable typeName => .error (.notCallable typeName)

end HookTable

end Loadable
