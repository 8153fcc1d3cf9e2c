import Loadable.Fault.Basic
/-!
What the steps of a session answer, and what is seen to happen while they run.
-/
namespace Loadable

inductive Outcome where
  | loaded
  | alreadyLoaded
  | executed
  deriving DecidableEq

namespace Outcome

def name : Outcome → String
  | loaded => "loaded"
  | alreadyLoaded => "already_loaded"
  | executed => "executed"

end Outcome

structure Description where
  name : String
  typeName : String
  cwd : Text
  flavor : Flavor
  deriving DecidableEq

inductive Listed where
  | file (path data : Bytes)
  | directory (path : Bytes)
  | link (path target : Bytes)
  deriving DecidableEq

inductive Answer where
  | nothing
  | flag (b : Bool)
  | count (n : Nat)
  | bytes (b : Bytes)
  | keys (ks : List Key)
  | text (t : Text)
  | texts (ts : List Text)
  | source (data : Bytes)
  | script (name : Text)
  | hook (script name : Text)
  | directory
  | outcome (o : Outcome)
  | description (d : Description)
  | listing (ls : List Listed)
  deriving DecidableEq

inductive Event where
  | evaluated (filename : Text) (source : Bytes)
  | hookCalled (script : Text)
  | stepDone (operation : String) (answer : Answer)
  | stepRescued (operation : String) (raised : Raised)
  deriving DecidableEq

end Loadable
