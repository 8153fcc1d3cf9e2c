import Loadable.Interpreter
import Loadable.Proofs.Arrival
import Loadable.Proofs.Canonical
import Loadable.Proofs.Likeness
import Loadable.Proofs.Reordering
/-!
Preloading: sources and hooks that an embedder puts below the reserved directory. The path is
resolved twice, against the reserved directory and then by the store, which finds nothing left to
do. So the working directory of the store does not matter.
-/
namespace Loadable

def Held.entry : Held → Entry
  | source data => .source data
  | hook h => .hook h

theorem Tables.entry?_held {t : Tables} {key : Key} {held : Held}
    (found : t.held? key = some held) : t.entry? key = some held.entry := by
  unfold Tables.held? at found
  unfold Tables.entry?
  cases source : t.sources.get? key with
  | some data =>
    rw [source] at found
    cases found
    rfl
  | none =>
    rw [source] at found
    obtain ⟨h, hook, rfl⟩ := Option.map_eq_some_iff.1 found
    rw [hook]
    rfl

namespace Flavor

theorem loadRoot_absolute : posix.isAbsolute posix.loadRoot = true := by decide +kernel

theorem loadRoot_down : .up ∉ posix.components posix.loadRoot := by decide +kernel

/-- A path resolved against the reserved directory is resolved for good. -/
theorem absolutize_loadRoot (path cwd : Text) :
    posix.absolutize (posix.absolutize path posix.loadRoot) cwd =
      posix.absolutize path posix.loadRoot := by
  rw [absolutize_placeOf slash_ne_dot_text loadRoot_absolute loadRoot_down,
    absolutize_joinNames slash_ne_dot_text isName_of_mem_placeOf]

end Flavor

namespace Insertion

open Flavor

def preload (s : Store) : Insertion → Act Unit
  | write path data => Interpreter.preloadSource s path data
  | register path given => Interpreter.preloadHook s path given

def actOn (s : Store) (key : Key) : Insertion → Act Unit
  | write _ data => do s.writeKey key (← Act.ofMishap data.asBytes)
  | register _ given => s.registerKey key given

def atKey (key : Key) : Insertion → Insertion
  | write _ data => write (.bytes key) data
  | register _ given => register (.bytes key) given

variable {i : Insertion} {key : Key} {cwd : Text} {w : World}

@[simp] theorem path_atKey (i : Insertion) (key : Key) : (i.atKey key).path = .bytes key := by
  cases i <;> rfl

@[simp] theorem held_atKey (i : Insertion) (key : Key) : (i.atKey key).held? = i.held? := by
  cases i with
  | write path data => cases data <;> rfl
  | register path given => cases given <;> rfl

theorem preload_eq (s : Store) (i : Insertion) : i.preload s = (do
    let below ← Interpreter.underLoadRoot s i.path
    i.actOn s (← s.resolve below)) := by
  cases i <;> rfl

theorem resolve_underLoadRoot (cwd : Text) (path : GivenPath) (w : World) :
    (do Store.resolve (.memory .posix cwd) (← Interpreter.underLoadRoot (.memory .posix cwd) path)) w =
      Act.of (posix.resolveGiven path (.text posix.loadRoot)) w := by
  cases read : path.asText with
  | error mishap =>
    have refused : posix.resolveGiven path (.text posix.loadRoot) = .error (.mishap mishap) := by
      simp [resolveGiven, absolutizeGiven, read, bind, Except.bind]
    simp [Interpreter.underLoadRoot, Act.bind_apply, Act.ofMishap, Act.of, Act.raise, read, refused]
  | ok text =>
    have same : Store.ownKey (.memory .posix cwd) (.text (posix.absolutize text posix.loadRoot)) =
        posix.resolveGiven path (.text posix.loadRoot) := by
      have under : (GivenPath.text posix.loadRoot).asText = .ok posix.loadRoot := rfl
      simp only [resolveGiven_eq read under, Store.ownKey, GivenPath.asText, resolve, absolutize_loadRoot]
      cases posix.keyOf (posix.absolutize text posix.loadRoot) <;> rfl
    simp [Interpreter.underLoadRoot, Act.bind_apply, Act.ofMishap, read, Store.resolve, same]

theorem preload_actOn (cwd : Text) (i : Insertion) : i.preload (.memory .posix cwd) = (do
    i.actOn (.memory .posix cwd) (← Act.of (posix.resolveGiven i.path (.text posix.loadRoot)))) := by
  funext w
  have arrived := resolve_underLoadRoot cwd i.path w
  rw [preload_eq]
  simp only [Act.bind_apply] at arrived ⊢
  rw [← arrived]
  cases Interpreter.underLoadRoot (.memory .posix cwd) i.path w with
  | mk below after => cases below <;> rfl

theorem actOn_memory (i : Insertion) (cwd other : Text) (key : Key) :
    i.actOn (.memory .posix cwd) key = i.actOn (.memory .posix other) key := by
  cases i <;> rfl

theorem preload_cwd (i : Insertion) (cwd other : Text) :
    i.preload (.memory .posix cwd) = i.preload (.memory .posix other) := by
  rw [preload_actOn, preload_actOn]
  funext w
  simp only [Act.bind_apply, actOn_memory i cwd other]

/-- An insertion at a key is the one whose path is the key, if the key stands for itself. -/
theorem act_atKey (canonical : key.IsCanonical) (cwd : Text) (i : Insertion) :
    (i.atKey key).act (.memory .posix cwd) = i.actOn (.memory .posix cwd) key := by
  have leads : Store.LeadsTo (.memory .posix cwd) (.bytes key) key :=
    Store.leadsTo_ownKey (.inl rfl) (canonical.ownKey cwd .memory)
  cases i with
  | write path data => exact leads.write_eq data
  | register path given => exact leads.registerExtension_eq given

theorem canonical_of_loadRoot (path : GivenPath)
    (resolved : posix.resolveGiven path (.text posix.loadRoot) = .ok key) : key.IsCanonical := by
  cases read : path.asText with
  | error mishap => simp [resolveGiven, absolutizeGiven, read, bind, Except.bind] at resolved
  | ok text =>
    rw [resolveGiven_ok read rfl] at resolved
    exact canonical_of_resolve loadRoot_absolute loadRoot_down resolved

theorem entry_of_act (resolved : Store.ownKey (.memory .posix cwd) i.path = .ok key)
    (done : (i.act (.memory .posix cwd) w).1 = .ok ()) :
    ∃ held, i.held? = some held ∧ ∀ (other : Text) (again : GivenPath),
      Store.ownKey (.memory .posix other) again = .ok key →
      (Store.entry? (.memory .posix other) again (i.act (.memory .posix cwd) w).2).1 =
        .ok (some held.entry) := by
  obtain ⟨ended, left⟩ := act_eq_insert (w := w) resolved
  rw [ended] at done
  obtain ⟨_, put⟩ := Tables.insert_ok done
  obtain ⟨held, leaves⟩ := put.leaves
  refine ⟨held, leaves, fun other again found => ?_⟩
  have stands : (i.act (.memory .posix cwd) w).2.tables.held? key = some held := by
    rw [left, put.held key, if_pos rfl, leaves]
  rw [Store.entry_memory found, Tables.entry?_held stands]

/-- A preload is an insertion at the key that the path has below the reserved directory, or fails as
the path does there. What it puts is found under that key from every working directory, and it makes
no difference which one the store has. -/
theorem preload_ignores_cwd (cwd : Text) (i : Insertion) :
    let s : Store := .memory .posix cwd
    let place := posix.resolveGiven i.path (.text posix.loadRoot)
    i.preload s = (do (i.atKey (← Act.of place)).act s) ∧
    i.preload s = (do i.actOn s (← Act.of place)) ∧
    (∀ other : Text, i.preload (.memory .posix other) = i.preload s) ∧
    ∀ key, place = .ok key →
      (∀ other : Text, Store.ownKey (.memory .posix other) (.bytes key) = .ok key) ∧
      ∀ w, (i.preload s w).1 = .ok () →
        ∃ held, i.held? = some held ∧ ∀ (other : Text) (again : GivenPath),
          Store.ownKey (.memory .posix other) again = .ok key →
          (Store.entry? (.memory .posix other) again (i.preload s w).2).1 = .ok (some held.entry) := by
  intro s place
  have atKey : i.preload s = (do (i.atKey (← Act.of place)).act s) := by
    rw [preload_actOn]
    change (do i.actOn s (← Act.of place)) = _
    cases resolved : place with
    | error raised => rfl
    | ok key => exact (act_atKey (canonical_of_loadRoot i.path resolved) cwd i).symm
  refine ⟨atKey, preload_actOn cwd i, fun other => preload_cwd i other cwd, ?_⟩
  intro key resolved
  have canonical := canonical_of_loadRoot i.path resolved
  refine ⟨fun other => canonical.ownKey other .memory, fun w done => ?_⟩
  have same : i.preload s = (i.atKey key).act s := by
    rw [atKey, resolved]
    rfl
  have own : Store.ownKey s (i.atKey key).path = .ok key := by
    rw [path_atKey]
    exact canonical.ownKey cwd .memory
  rw [same] at done ⊢
  obtain ⟨held, leaves, found⟩ := entry_of_act own done
  exact ⟨held, (held_atKey i key).symm.trans leaves, found⟩

/-- A source preloaded at a path that climbs out above the root, into a store whose own directory is
no place at all, is found from another such directory. -/
theorem preload_above_root :
    let s : Store := .memory .posix ("../x" : Text)
    let i : Insertion :=
      .write (.bytes (Bytes.ofString "../../../../../../q/./" ++ [0xff])) (.bytes [1])
    let key := Bytes.ofString "/q/" ++ [0xff]
    posix.resolveGiven i.path (.text posix.loadRoot) = .ok key ∧
    (i.preload s {}).1 = .ok () ∧
    (Store.entry? (.memory .posix (".." : Text)) (.bytes key) (i.preload s {}).2).1 =
      .ok (some (.source [1])) := by
  intro s i key
  have resolved : posix.resolveGiven i.path (.text posix.loadRoot) = .ok key := by decide +kernel
  have done : (i.preload s {}).1 = .ok () := by decide +kernel
  obtain ⟨_, _, _, found⟩ := preload_ignores_cwd ("../x" : Text) i
  obtain ⟨own, entries⟩ := found key resolved
  obtain ⟨held, leaves, answers⟩ := entries {} done
  cases leaves
  exact ⟨resolved, done, answers _ _ (own _)⟩

end Insertion

end Loadable
