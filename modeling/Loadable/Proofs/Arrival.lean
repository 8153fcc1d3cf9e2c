import Loadable.Store.Require
/-!
Where a path leads to a key without further ado, an operation on the path is the operation on the key.
-/
namespace Loadable

namespace Store

variable {s : Store} {path : GivenPath} {key : Key}

/-- A path that leads to a key without further ado: it is served by this store alone. -/
structure LeadsTo (s : Store) (path : GivenPath) (key : Key) : Prop where
  single : ∀ roots, s.backend ≠ .searchPath roots
  resolve : ∀ w, s.resolve path w = (.ok key, w)

namespace LeadsTo

variable (leads : s.LeadsTo path key)

include leads

theorem goes {α : Type} (search : List Text → Act α) (serve : Key → Act α) :
    (match s.backend with
      | .searchPath roots => search roots
      | _ => s.resolve path >>= serve) = serve key := by
  funext w
  have arrived := leads.resolve w
  cases kind : s.backend with
  | searchPath roots => exact absurd kind (leads.single roots)
  | _ => simp only [Act.bind_apply, arrived]

theorem contains_eq : s.contains path = s.containsKey key :=
  leads.goes _ _

theorem isDirectory_eq : s.isDirectory path = s.keyIsDirectory key :=
  leads.goes _ _

theorem read_eq : s.read path = s.readKey key :=
  leads.goes _ _

theorem isRequired_eq : s.isRequired path = do
    let feature ← s.featureKey key
    return (← Act.world).tables.features.isLoaded feature :=
  leads.goes _ fun key => do
    let feature ← s.featureKey key
    return (← Act.world).tables.features.isLoaded feature

theorem require_eq (run : ScriptRunner) : s.require run path = s.requireKey run key :=
  leads.goes _ (s.requireKey run)

theorem load_eq (run : ScriptRunner) : s.load run path = s.loadKey run key :=
  leads.goes _ _

theorem extension_eq : s.extension? path = do return (← Act.world).tables.hooks.get? key := by
  funext w
  simp only [extension?, Act.bind_apply, leads.resolve w]

theorem write_eq (data : GivenData) :
    s.write path data = Act.ofMishap data.asBytes >>= s.writeKey key := by
  funext w
  simp only [write, Act.bind_apply, leads.resolve w]

theorem registerExtension_eq (given : GivenHook) :
    s.registerExtension path given = s.registerKey key given := by
  funext w
  simp only [registerExtension, Act.bind_apply, leads.resolve w]

end LeadsTo

theorem leadsTo_ownKey (plain : s.backend = .memory ∨ s.backend = .native)
    (resolved : s.ownKey path = .ok key) : s.LeadsTo path key where
  single roots := by
    rcases plain with kind | kind <;> rw [kind] <;> exact Backend.noConfusion
  resolve w := by
    unfold resolve
    rcases plain with kind | kind <;> rw [kind, resolved] <;> rfl

end Store

end Loadable
