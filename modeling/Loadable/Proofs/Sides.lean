import Loadable.Proofs.Routing
import Loadable.Proofs.Traces
/-!
What an operation of a hybrid store answers and changes. On a key of one side it answers as the store
of that side, if that store can be trusted to answer alike on contents so related; what it changes by
itself is said for each kind of operation.
-/
namespace Loadable

def Action.IsAtKey : Action → Prop
  | contains _ | isDirectory _ | read _ | write _ _ | registerExtension _ _ | extension _ => True
  | _ => False

/-- On contents so related the store of a side answers alike at the key, and insertions there leave
such contents. -/
structure Side.Answers (related : Stored → Stored → Prop) (cwd : Text) (side : Side) (key : Key) :
    Prop where
  contains : Act.Agree related ((side.store cwd).containsKey key) ((side.store cwd).containsKey key)
  isDirectory : Act.Agree related ((side.store cwd).keyIsDirectory key)
    ((side.store cwd).keyIsDirectory key)
  read : Act.Agree related ((side.store cwd).readKey key) ((side.store cwd).readKey key)
  hook : ∀ {st other}, related st other →
    st.tables.hooks.get? key = other.tables.hooks.get? key
  inserts : ∀ (i : Insertion) {st other}, related st other →
    (st.insert key side i).1 = (other.insert key side i).1 ∧
      related (st.insert key side i).2 (other.insert key side i).2

namespace Side.Answers

open Act (Agree)

variable {related : Stored → Stored → Prop} {cwd nativeCwd : Text} {side : Side} {path : GivenPath}
  {key : Key} {base : Place} {action : Action}
  (answers : side.Answers related cwd key)
  (serves : (Store.hybrid cwd nativeCwd).side key = side)

include answers serves

theorem readKey_agree :
    Agree related ((Store.hybrid cwd nativeCwd).readKey key) ((side.store cwd).readKey key) :=
  Store.agree_served answers.read (Store.readKey_hybrid serves)

theorem act_agree (resolved : (Store.hybrid cwd nativeCwd).ownKey path = .ok key)
    (named : action.path? = some path) (atKey : action.IsAtKey) (run copy : ScriptRunner) :
    Agree related (Session.act run base (.hybrid cwd nativeCwd) action)
      (Session.act copy base (side.store cwd) action) := by
  have leads := Store.leadsTo_hybrid resolved
  have alone := Store.leadsTo_store resolved side
  have inserted : ∀ i : Insertion, i.path = path →
      Agree related (i.act (.hybrid cwd nativeCwd)) (i.act (side.store cwd)) := by
    rintro i rfl
    exact Insertion.act_agree resolved serves (answers.inserts i)
  cases action with
  | contains other =>
    cases named
    refine Agree.answer ?_ _
    rw [leads.contains_eq, alone.contains_eq]
    exact Store.agree_served answers.contains (Store.containsKey_hybrid serves)
  | isDirectory other =>
    cases named
    refine Agree.answer ?_ _
    rw [leads.isDirectory_eq, alone.isDirectory_eq]
    exact Store.agree_served answers.isDirectory (Store.keyIsDirectory_hybrid serves)
  | read other =>
    cases named
    refine Agree.answer ?_ _
    rw [leads.read_eq, alone.read_eq]
    exact answers.readKey_agree serves
  | write other data =>
    cases named
    exact (inserted (.write path data) rfl).answer _
  | registerExtension other given =>
    cases named
    exact (inserted (.register path given) rfl).answer _
  | extension other =>
    cases named
    refine .bind ?_ fun found => ?_
    · rw [leads.extension_eq, alone.extension_eq]
      refine .world fun u z held => ?_
      have same : u.tables.hooks.get? key = z.tables.hooks.get? key := answers.hook held
      rw [same]
      exact .of (.ok _)
    · cases found <;> exact .of (.ok _)
  | _ => exact atKey.elim

end Side.Answers

namespace Action

inductive Kind : Action → Prop where
  | asks {action : Action} (asks : action.Asks) : Kind action
  | changesHost {action : Action} (changes : action.ChangesHost) : Kind action
  | inserts (i : Insertion) : Kind i.action
  | requires (path : GivenPath) : Kind (.require path)
  | loads (path : GivenPath) : Kind (.load path)

theorem IsDirect.kind {action : Action} (direct : action.IsDirect) : action.Kind := by
  cases action with
  | write path data => exact .inserts (.write path data)
  | registerExtension path given => exact .inserts (.register path given)
  | require path => exact .requires path
  | load path => exact .loads path
  | hostWrite _ _ => exact .changesHost trivial
  | hostMakeDirectories _ => exact .changesHost trivial
  | hostRemove _ => exact .changesHost trivial
  | hostLink _ _ => exact .changesHost trivial
  | hostChangeDirectory _ => exact .changesHost trivial
  | hostChangeMode _ _ => exact .changesHost trivial
  | requireName _ => exact direct.elim
  | loadName _ => exact direct.elim
  | requireRelative _ => exact direct.elim
  | evaluate _ _ => exact direct.elim
  | preloadSource _ _ => exact direct.elim
  | preloadHook _ _ => exact direct.elim
  | _ => exact .asks trivial

end Action

namespace Session

variable {cwd nativeCwd : Text} {base : Place} {action : Action} {w : World}

theorem idle_same (run copy : ScriptRunner) (base : Place) (s : Store)
    (idle : action.Asks ∨ action.ChangesHost) : act run base s action = act copy base s action := by
  cases action with
  | require _ => exact idle.elim False.elim False.elim
  | load _ => exact idle.elim False.elim False.elim
  | requireName _ => exact idle.elim False.elim False.elim
  | loadName _ => exact idle.elim False.elim False.elim
  | requireRelative _ => exact idle.elim False.elim False.elim
  | evaluate _ _ => exact idle.elim False.elim False.elim
  | _ => rfl

/-- All that an operation of a hybrid store changes by itself, kind by kind. -/
theorem hybrid_changes {how : Except Raised Answer → Stored → Stored → Prop}
    (direct : action.IsDirect) (none : ∀ answer st, how answer st st)
    (onHost : action.ChangesHost →
      ∀ answer tables host other, how answer ⟨tables, host⟩ ⟨tables, other⟩)
    (inserts : ∀ i key, action = i.action → (Store.hybrid cwd nativeCwd).ownKey i.path = .ok key →
      let made := w.stored.insert key ((Store.hybrid cwd nativeCwd).side key) i
      how (made.1.map fun () => .nothing) w.stored made.2)
    (requires : ∀ path feature st, action = .require path →
      ((Store.hybrid cwd nativeCwd).featureOf path w).1 = .ok feature →
        how (.ok (.outcome .loaded)) st (st.mark feature)) :
    Act.Changes how (fun run => act run base (.hybrid cwd nativeCwd) action) w := by
  cases direct.kind with
  | asks asks =>
    have left := (act_quiet (fun _ => pure ()) base (.hybrid cwd nativeCwd) asks).stored w
    refine .of_same (fun run copy => idle_same run copy base _ (.inl asks)) ?_
    rw [left]
    exact none _ _
  | changesHost changes =>
    refine .of_same (fun run copy => idle_same run copy base _ (.inr changes)) ?_
    have kept : Act.Keeps (· = w.tables)
        (act (fun _ => pure ()) base (.hybrid cwd nativeCwd) action) :=
      changesHost_keeps base _ changes
    have tables := kept w rfl
    unfold World.stored
    rw [tables]
    exact onHost changes _ _ _ _
  | inserts i =>
    have made : ∀ run, act run base (.hybrid cwd nativeCwd) i.action w =
        ((i.act (.hybrid cwd nativeCwd) w).1.map fun () => .nothing,
          (i.act (.hybrid cwd nativeCwd) w).2) := by
      intro run
      rw [i.action_eq, Act.answer_apply]
    refine .alone _ _ ?_ made
    cases resolved : (Store.hybrid cwd nativeCwd).ownKey i.path with
    | error raised =>
      rw [Insertion.act_hybrid_unresolved resolved]
      exact none _ _
    | ok key =>
      have effect := Insertion.act_hybrid resolved rfl w
      have left := inserts i key rfl resolved
      rw [← effect] at left
      exact left
  | requires path =>
    obtain ⟨more, once, registers⟩ := (Store.hybrid cwd nativeCwd).require_once path w
    refine (once.answer Answer.outcome).changes none fun st => ?_
    rcases registers with rfl | ⟨feature, named, rfl⟩
    · exact none _ _
    · exact requires path feature st rfl named
  | loads path =>
    have once := (Store.hybrid cwd nativeCwd).load_once path w
    exact (once.answer Answer.outcome).changes none fun st => none _ _

end Session

end Loadable
