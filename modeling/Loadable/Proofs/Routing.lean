import Loadable.Proofs.Ancestors
import Loadable.Proofs.Arrival
import Loadable.Proofs.Inserts
import Loadable.Proofs.Agreement
/-!
What a hybrid store does with a path: it goes to the memory side exactly if its components begin with
those of the reserved directory, and that side then does what is asked.
-/
namespace Loadable

abbrev Store.hybrid (cwd nativeCwd : Text) : Store :=
  ⟨.posix, cwd, .hybrid nativeCwd⟩

abbrev reserved : Key :=
  Flavor.posix.loadRootKey

def Key.IsReserved (key : Key) : Prop :=
  Flavor.posix.components reserved <+: Flavor.posix.components key

instance (key : Key) : Decidable key.IsReserved :=
  inferInstanceAs (Decidable (_ <+: _))

theorem isUnder_iff_isReserved {path cwd : Text} {key : Key}
    (resolved : Flavor.posix.resolve path cwd = .ok key) :
    Key.isUnder reserved key = true ↔ key.IsReserved := by
  obtain ⟨components, settled, rfl⟩ := Flavor.settled_of_resolve resolved
  let place : Place := [Bytes.ofString "artichoke", Bytes.ofString "virtual_root",
    Bytes.ofString "src", Bytes.ofString "lib"]
  have names : ∀ name ∈ place, IsName name := by decide
  have same : place.path = reserved := by decide
  rw [Key.IsReserved, ← same]
  exact Flavor.isUnder_iff_components names (List.cons_ne_nil _ _) settled

theorem ne_of_isUnder {key other : Key} (under : Key.isUnder reserved key = true)
    (outside : Key.isUnder reserved other = false) : key ≠ other := by
  rintro rfl
  rw [outside] at under
  cases under

namespace Action

def path? : Action → Option GivenPath
  | contains path | isDirectory path | isRequired path | read path | write path _
  | registerExtension path _ | extension path | require path | load path => some path
  | _ => none

def key? (s : Store) (action : Action) : Option Key :=
  action.path?.bind fun path => (s.ownKey path).toOption

def isReserved (s : Store) (action : Action) : Bool :=
  (action.key? s).any fun key => decide key.IsReserved

def isOutside (s : Store) (action : Action) : Bool :=
  (action.key? s).any fun key => decide ¬key.IsReserved

theorem any_key_iff {s : Store} {action : Action} {holds : Key → Bool} :
    (action.key? s).any holds = true ↔
      ∃ path key, action.path? = some path ∧ s.ownKey path = .ok key ∧ holds key = true := by
  unfold key?
  cases action.path? with
  | none => simp
  | some path => cases found : s.ownKey path <;> simp [found, Except.toOption]

theorem isReserved_iff {s : Store} {action : Action} : action.isReserved s = true ↔
    ∃ path key, action.path? = some path ∧ s.ownKey path = .ok key ∧ key.IsReserved := by
  simp only [isReserved, any_key_iff, decide_eq_true_iff]

theorem isOutside_iff {s : Store} {action : Action} : action.isOutside s = true ↔
    ∃ path key, action.path? = some path ∧ s.ownKey path = .ok key ∧ ¬key.IsReserved := by
  simp only [isOutside, any_key_iff, decide_eq_true_iff]

end Action

namespace Store

variable {cwd nativeCwd : Text} {path : GivenPath} {key : Key} {w : World}

def routed (s : Store) (key : Key) (w : World) : World :=
  (s.route key w).2

theorem routed_stored (s : Store) (key : Key) (w : World) : (s.routed key w).stored = w.stored := rfl

theorem route_eq (s : Store) (key : Key) (w : World) :
    s.route key w = (.ok (s.side key), s.routed key w) := rfl

theorem serves_reserved (resolved : ownKey (.hybrid cwd nativeCwd) path = .ok key)
    (inside : key.IsReserved) :
    side (.hybrid cwd nativeCwd) key = .memory ∧ Key.isUnder reserved key = true := by
  obtain ⟨text, _, found⟩ := ownKey_ok.1 resolved
  have under := (isUnder_iff_isReserved found).2 inside
  exact ⟨if_pos under, under⟩

theorem serves_outside (resolved : ownKey (.hybrid cwd nativeCwd) path = .ok key)
    (outside : ¬key.IsReserved) :
    side (.hybrid cwd nativeCwd) key = .native ∧ Key.isUnder reserved key = false := by
  obtain ⟨text, _, found⟩ := ownKey_ok.1 resolved
  have away := mt (isUnder_iff_isReserved found).1 outside
  exact ⟨if_neg away, Bool.eq_false_iff.2 away⟩

theorem resolve_hybrid (path : GivenPath) (w : World) :
    resolve (.hybrid cwd nativeCwd) path w = (ownKey (.hybrid cwd nativeCwd) path, w) := by
  simp only [resolve, Act.bind_apply]
  cases ownKey (.hybrid cwd nativeCwd) path <;> rfl

end Store

def Side.store (cwd : Text) : Side → Store
  | memory => ⟨.posix, cwd, .memory⟩
  | native => ⟨.posix, cwd, .native⟩

namespace Store

variable {cwd nativeCwd : Text} {path : GivenPath} {key : Key} {side : Side} {w : World}

section Keys

variable (serves : (hybrid cwd nativeCwd).side key = side)

include serves

theorem goes_to {α : Type} (act : Side → Act α) (w : World) :
    ((hybrid cwd nativeCwd).route key >>= act) w =
      act side ((hybrid cwd nativeCwd).routed key w) := by
  rw [Act.bind_apply, route_eq, serves]

theorem containsKey_hybrid (w : World) : (hybrid cwd nativeCwd).containsKey key w =
    (side.store cwd).containsKey key ((hybrid cwd nativeCwd).routed key w) := by
  cases side <;> exact goes_to serves _ w

theorem keyIsDirectory_hybrid (w : World) : (hybrid cwd nativeCwd).keyIsDirectory key w =
    (side.store cwd).keyIsDirectory key ((hybrid cwd nativeCwd).routed key w) := by
  cases side <;> exact goes_to serves _ w

theorem readKey_hybrid (w : World) : (hybrid cwd nativeCwd).readKey key w =
    (side.store cwd).readKey key ((hybrid cwd nativeCwd).routed key w) := by
  cases side <;> exact goes_to serves _ w

theorem featureKey_hybrid (w : World) : (hybrid cwd nativeCwd).featureKey key w =
    (side.store cwd).featureKey key ((hybrid cwd nativeCwd).routed key w) := by
  cases side <;> exact goes_to serves _ w

theorem writeKey_hybrid (data : Bytes) (w : World) : (hybrid cwd nativeCwd).writeKey key data w =
    (side.store cwd).writeKey key data ((hybrid cwd nativeCwd).routed key w) := by
  cases side <;> exact goes_to serves _ w

theorem registerKey_hybrid (given : GivenHook) (w : World) :
    (hybrid cwd nativeCwd).registerKey key given w =
      (side.store cwd).registerKey key given ((hybrid cwd nativeCwd).routed key w) := by
  cases side <;> exact goes_to serves _ w

end Keys

theorem leadsTo_hybrid (resolved : (hybrid cwd nativeCwd).ownKey path = .ok key) :
    (hybrid cwd nativeCwd).LeadsTo path key where
  single _ := nofun
  resolve w := by rw [resolve_hybrid, resolved]

theorem leadsTo_store (resolved : (hybrid cwd nativeCwd).ownKey path = .ok key) (side : Side) :
    (side.store cwd).LeadsTo path key := by
  cases side with
  | memory => exact leadsTo_ownKey (.inl rfl) resolved
  | native => exact leadsTo_ownKey (.inr rfl) resolved

/-- What a hybrid store does at a key agrees with what the store does that serves it, if that agrees
with itself. -/
theorem agree_served {α : Type} {related : Stored → Stored → Prop} {x y : Act α}
    (agree : Act.Agree related y y) (goes : ∀ w, x w = y ((hybrid cwd nativeCwd).routed key w)) :
    Act.Agree related x y :=
  agree.start (fun w => ⟨_, routed_stored _ key w, goes w⟩) fun v => ⟨v, rfl, rfl⟩

end Store

/-- What an insertion answers and leaves when its key is on one side. On the host a hook may stand
anywhere, and a write takes the hook at its key away when the host has the data. -/
def Stored.insert (st : Stored) (key : Key) : Side → Insertion → Except Raised Unit × Stored
  | .memory, i => ((st.tables.insert key i).1, ⟨(st.tables.insert key i).2, st.host⟩)
  | .native, .write _ data =>
    match data.asBytes with
    | .error mishap => (.error (.mishap mishap), st)
    | .ok bytes =>
      match st.host.writeKey key bytes with
      | (.error raised, host) => (.error raised, ⟨st.tables, host⟩)
      | (.ok (), host) => (.ok (), ⟨{ st.tables with hooks := st.tables.hooks.erase key }, host⟩)
  | .native, .register _ given =>
    match st.tables.hooks.register key given with
    | .error mishap => (.error (.mishap mishap), st)
    | .ok hooks => (.ok (), ⟨{ st.tables with hooks := hooks }, st.host⟩)

def Act.effect {α : Type} (x : Act α) (w : World) : Except Raised α × Stored :=
  ((x w).1, (x w).2.stored)

theorem Act.answer_apply {α β : Type} (x : Act α) (f : α → β) (w : World) :
    (do return f (← x) : Act β) w = ((x w).1.map f, (x w).2) := by
  rw [bind_apply]
  cases x w with
  | mk result after => cases result <;> rfl

namespace Insertion

variable {cwd nativeCwd : Text} {key : Key} {side : Side} {i : Insertion} {w : World}

theorem act_store (resolved : (Store.hybrid cwd nativeCwd).ownKey i.path = .ok key) (side : Side)
    (w : World) : Act.effect (i.act (side.store cwd)) w = w.stored.insert key side i := by
  cases side with
  | memory =>
    obtain ⟨log, ran, _⟩ := @act_resolved .posix cwd i w key resolved
    unfold Act.effect
    rw [Side.store, ran]
    rfl
  | native =>
    cases i with
    | write path data =>
      have leads : (Side.native.store cwd).LeadsTo path key := Store.leadsTo_store resolved .native
      rewrite [act, leads.write_eq, Act.effect, Act.bind_apply, Stored.insert]
      cases data.asBytes with
      | error mishap => rfl
      | ok bytes =>
        simp only [Act.ofMishap, Act.pure_apply, Side.store, Store.writeKey, Store.writeHost,
          Act.bind_apply, Act.onHost, World.stored]
        cases w.host.writeKey key bytes with
        | mk result host => cases result <;> rfl
    | register path given =>
      have leads : (Side.native.store cwd).LeadsTo path key := Store.leadsTo_store resolved .native
      rewrite [act, leads.registerExtension_eq, Act.effect]
      simp only [Side.store, Store.registerKey, Store.registerHost, Act.bind_apply, Act.world,
          Act.onTables, World.stored, Stored.insert]
      cases w.tables.hooks.register key given with
      | error mishap => rfl
      | ok hooks => rfl

theorem act_hybrid (resolved : (Store.hybrid cwd nativeCwd).ownKey i.path = .ok key)
    (serves : (Store.hybrid cwd nativeCwd).side key = side) (w : World) :
    Act.effect (i.act (.hybrid cwd nativeCwd)) w = w.stored.insert key side i := by
  have same := act_store resolved side
  rw [← Store.routed_stored (.hybrid cwd nativeCwd) key w, ← same]
  cases i with
  | write path data =>
    have leads : (Store.hybrid cwd nativeCwd).LeadsTo path key := Store.leadsTo_hybrid resolved
    have alone : (side.store cwd).LeadsTo path key := Store.leadsTo_store resolved side
    rewrite [act, act, leads.write_eq, alone.write_eq, Act.effect, Act.effect, Act.bind_apply,
      Act.bind_apply]
    cases data.asBytes with
    | error mishap => rfl
    | ok bytes =>
      simp only [Act.ofMishap, Act.pure_apply]
      rw [Store.writeKey_hybrid serves]
  | register path given =>
    have leads : (Store.hybrid cwd nativeCwd).LeadsTo path key := Store.leadsTo_hybrid resolved
    have alone : (side.store cwd).LeadsTo path key := Store.leadsTo_store resolved side
    rw [act, act, leads.registerExtension_eq, alone.registerExtension_eq, Act.effect, Act.effect,
      Store.registerKey_hybrid serves]

theorem act_hybrid_unresolved {raised : Raised}
    (unresolved : (Store.hybrid cwd nativeCwd).ownKey i.path = .error raised) (w : World) :
    i.act (.hybrid cwd nativeCwd) w = (.error raised, w) := by
  have stops : ∀ path, (Store.hybrid cwd nativeCwd).ownKey path = .error raised →
      (Store.hybrid cwd nativeCwd).resolve path w = (.error raised, w) := by
    intro path failed
    rw [Store.resolve_hybrid, failed]
  cases i with
  | write path data => simp only [act, Store.write, Act.bind_apply, stops path unresolved]
  | register path given =>
    simp only [act, Store.registerExtension, Act.bind_apply, stops path unresolved]

theorem act_agree {related : Stored → Stored → Prop}
    (resolved : (Store.hybrid cwd nativeCwd).ownKey i.path = .ok key)
    (serves : (Store.hybrid cwd nativeCwd).side key = side)
    (agree : ∀ {st other}, related st other →
      (st.insert key side i).1 = (other.insert key side i).1 ∧
        related (st.insert key side i).2 (other.insert key side i).2) :
    Act.Agree related (i.act (.hybrid cwd nativeCwd)) (i.act (side.store cwd)) := by
  intro w v start
  have made := agree start
  rw [← act_hybrid resolved serves, ← act_store resolved side] at made
  exact made

def action : Insertion → Action
  | write path data => .write path data
  | register path given => .registerExtension path given

theorem action_eq (run : ScriptRunner) (base : Place) (s : Store) (i : Insertion) :
    Session.act run base s i.action = do return (fun () => .nothing) (← i.act s) := by
  cases i <;> rfl

theorem path_action (i : Insertion) : i.action.path? = some i.path := by
  cases i <;> rfl

theorem isReserved_action (resolved : (Store.hybrid cwd nativeCwd).ownKey i.path = .ok key) :
    i.action.isReserved (.hybrid cwd nativeCwd) = true ↔ key.IsReserved := by
  simp [Action.isReserved, Action.key?, path_action, resolved, Except.toOption]

theorem isOutside_action (resolved : (Store.hybrid cwd nativeCwd).ownKey i.path = .ok key) :
    i.action.isOutside (.hybrid cwd nativeCwd) = true ↔ ¬key.IsReserved := by
  simp [Action.isOutside, Action.key?, path_action, resolved, Except.toOption]

end Insertion

end Loadable
