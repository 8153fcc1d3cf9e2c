import Loadable.Proofs.Calls
/-!
A require or a load runs at most one script itself, and right away: what is stored has not changed
when it starts. When it has ended nothing else changes either, except that a require registers its
feature.
-/
namespace Loadable

structure Stored where
  tables : Tables
  host : Host

def World.stored (w : World) : Stored :=
  ⟨w.tables, w.host⟩

def Stored.mark (feature : Key) (st : Stored) : Stored :=
  { st with tables := { st.tables with features := st.tables.features.mark feature } }

namespace Act

variable {α β : Type}

theorem Quiet.stored {x : Act α} (quiet : Quiet x) (w : World) : (x w).2.stored = w.stored := by
  rw [quiet w]
  rfl

theorem Looks.of_stored {x : Act α} (looks : Looks x) {w v : World} (same : w.stored = v.stored) :
    (x w).1 = (x v).1 := by
  obtain ⟨tables, host⟩ := Stored.mk.inj same
  exact looks.answer ⟨by rw [tables], by rw [tables], by rw [tables], host⟩

/-- What an act leaves is what there was before, or after a certain success what comes of that. -/
def Leaves (value : α) (more : Stored → Stored) (result : Except Raised α) (before after : Stored) :
    Prop :=
  after = before ∨ (result = .ok value ∧ after = more before)

/-- From this world the act runs nothing, or one script: it starts with what is stored here, and how
it ends decides how the act ends, with this value if the script is done. -/
inductive Once (value : α) (more : Stored → Stored) (x : ScriptRunner → Act α) (w : World) : Prop where
  | idle (result : Except Raised α) (after : World)
      (left : Leaves value more result w.stored after.stored)
      (all : ∀ run, x run w = (result, after)) : Once value more x w
  | runs (script : Text) {start : World} (same : start.stored = w.stored)
      (ending : Except Raised Unit → Except Raised α)
      (finishing : Except Raised Unit → World → World)
      (done : ending (.ok ()) = .ok value)
      (failed : ∀ raised, ∃ other, ending (.error raised) = .error other)
      (left : ∀ result after,
        Leaves value more (ending result) after.stored (finishing result after).stored)
      (all : ∀ run, x run w = (ending (run script start).1,
        finishing (run script start).1 (run script start).2)) : Once value more x w

/-- What the act changes by itself: what is stored after it comes about in this way from what was
stored before, or from what the script has left that it runs. -/
inductive Changes (how : Except Raised α → Stored → Stored → Prop) (x : ScriptRunner → Act α)
    (w : World) : Prop where
  | alone (result : Except Raised α) (after : World) (left : how result w.stored after.stored)
      (all : ∀ run, x run w = (result, after)) : Changes how x w
  | script (script : Text) {start : World} (same : start.stored = w.stored)
      (left : ∀ run, how (x run w).1 (run script start).2.stored (x run w).2.stored) : Changes how x w

theorem Changes.of_same {x : ScriptRunner → Act α} {w : World}
    {how : Except Raised α → Stored → Stored → Prop} (same : ∀ run copy, x run = x copy)
    (left : how (x (fun _ => pure ()) w).1 w.stored (x (fun _ => pure ()) w).2.stored) :
    Changes how x w :=
  .alone _ _ left fun run => congrFun (same run fun _ => pure ()) w

theorem Once.changes {value : α} {more : Stored → Stored} {x : ScriptRunner → Act α} {w : World}
    {how : Except Raised α → Stored → Stored → Prop} (once : Once value more x w)
    (kept : ∀ result st, how result st st) (further : ∀ st, how (.ok value) st (more st)) :
    Changes how x w := by
  have made : ∀ {result before after}, Leaves value more result before after →
      how result before after := by
    rintro result before after (rfl | ⟨rfl, rfl⟩)
    · exact kept _ _
    · exact further _
  cases once with
  | idle result after left all => exact .alone result after (made left) all
  | runs script same ending finishing done failed left all =>
    refine .script script same fun run => ?_
    rw [all]
    exact made (left _ _)

namespace Once

variable {value : α} {other : β} {more : Stored → Stored} {x : ScriptRunner → Act α}
  {y : ScriptRunner → Act β} {w start : World}

theorem script (script : Text) (w : World) : Once () id (fun run => run script) w :=
  .runs script rfl id (fun _ after => after) rfl (fun raised => ⟨raised, rfl⟩) (fun _ _ => .inl rfl)
    fun _ => rfl

/-- What is done around an act that runs a script once, as long as it changes nothing that is stored. -/
theorem around (inner : Once value more x start) (enter : start.stored = w.stored)
    (ending : Except Raised α → Except Raised β) (finishing : Except Raised α → World → World)
    (done : ending (.ok value) = .ok other)
    (failed : ∀ raised, ∃ later, ending (.error raised) = .error later)
    (kept : ∀ result after, (finishing result after).stored = after.stored)
    (all : ∀ run, y run w = (ending (x run start).1, finishing (x run start).1 (x run start).2)) :
    Once other more y w := by
  have outer : ∀ {result : Except Raised α} {before after : Stored},
      Leaves value more result before after → Leaves other more (ending result) before after := by
    rintro result before after (same | ⟨rfl, further⟩)
    · exact .inl same
    · exact .inr ⟨done, further⟩
  cases inner with
  | idle result after left same =>
    refine .idle (ending result) (finishing result after) ?_ fun run => ?_
    · rw [kept, ← enter]
      exact outer left
    · rw [all run, same run]
  | runs script entered ending' finishing' done' failed' left same =>
    refine .runs script (entered.trans enter) (fun result => ending (ending' result))
      (fun result after => finishing (ending' result) (finishing' result after))
      ?_ ?_ ?_ fun run => ?_
    · rw [done', done]
    · intro raised
      obtain ⟨later, ends⟩ := failed' raised
      rw [ends]
      exact failed later
    · intro result after
      rw [kept]
      exact outer (left result after)
    · rw [all run, same run]

theorem after {x : Act β} (kept : (x w).2.stored = w.stored) {f : ScriptRunner → β → Act α}
    (rest : ∀ b middle, x w = (.ok b, middle) → Once value more (fun run => f run b) middle) :
    Once value more (fun run => x >>= f run) w := by
  cases looked : x w with
  | mk result middle =>
    rw [looked] at kept
    cases result with
    | error raised =>
      refine .idle (.error raised) middle (.inl kept) fun run => ?_
      rw [bind_apply, looked]
    | ok b =>
      refine around (rest b middle looked) kept id (fun _ after => after) rfl
        (fun raised => ⟨raised, rfl⟩) (fun _ _ => rfl) fun run => ?_
      simp only [bind_apply, looked]
      rfl

theorem recorded (inner : Once value more x w.forCall) (made : Call) (answer : α → Answer) :
    Once value more (fun run => Act.recorded made answer (x run)) w :=
  around inner rfl id
    (fun result after =>
      { after with history := w.history.call made after.history (result.map answer) })
    rfl (fun raised => ⟨raised, rfl⟩) (fun _ _ => rfl) fun _ => rfl

theorem asFile {filename : Text} (inner : Once value more x { w with files := filename :: w.files }) :
    Once value more (fun run => Act.asFile filename (x run)) w :=
  around inner rfl id (fun _ after => { after with files := after.files.tail }) rfl
    (fun raised => ⟨raised, rfl⟩) (fun _ _ => rfl) fun _ => rfl

theorem answer (inner : Once value more x w) (f : α → β) :
    Once (f value) more (fun run => do return f (← x run)) w := by
  refine around inner rfl (fun result => result.map f) (fun _ after => after) rfl
    (fun raised => ⟨raised, rfl⟩) (fun _ _ => rfl) fun run => ?_
  rw [bind_apply]
  cases x run w with
  | mk result after => cases result <;> rfl

def closing (last : World → World) : Except Raised Unit → World → World
  | .ok () => last
  | .error _ => id

theorem before {x : ScriptRunner → Act Unit} (inner : Once () id x w) {f : Act β} (last : World → World)
    (ends : ∀ after, f after = (.ok other, last after))
    (stores : ∀ after, (last after).stored = more after.stored) :
    Once other more (fun run => x run >>= fun _ => f) w := by
  have closed : ∀ {result before after}, Leaves () id result before after.stored →
      Leaves other more (result.map fun () => other) before (closing last result after).stored := by
    intro result before after left
    have same : after.stored = before := left.elim id And.right
    cases result with
    | ok => exact .inr ⟨rfl, by rw [← same]; exact stores after⟩
    | error raised => exact .inl same
  have whole : ∀ run, (x run >>= fun _ => f) w =
      ((x run w).1.map fun () => other, closing last (x run w).1 (x run w).2) := by
    intro run
    rw [bind_apply]
    cases x run w with
    | mk result after =>
      cases result with
      | ok => exact ends after
      | error raised => rfl
  cases inner with
  | idle result after left same =>
    refine .idle _ _ (closed left) fun run => ?_
    rw [whole, same run]
  | runs script entered ending finishing done failed left same =>
    refine .runs script entered (fun result => (ending result).map fun () => other)
      (fun result after => closing last (ending result) (finishing result after)) ?_ ?_
      (fun result after => closed (left result after)) fun run => ?_
    · rw [done]
      rfl
    · intro raised
      obtain ⟨later, ends⟩ := failed raised
      exact ⟨later, by rw [ends]; rfl⟩
    · rw [whole, same run]

end Once

end Act

open Act (Once)

theorem callHook_once (key : Key) (hook : Hook) (w : World) :
    Once () id (fun run => callHook run key hook) w :=
  .recorded (.after rfl fun _ _ _ => .script hook.script _) _ _

theorem evaluate_once (source : Bytes) (filename : Text) (w : World) :
    Once source.length id (fun run => evaluate run source filename) w := by
  have body : ∀ v, Once () id (fun run => runSource run source filename) v := by
    refine fun v => .after rfl fun _ middle _ => ?_
    cases scriptOf? source with
    | some script => exact .script script middle
    | none => exact .idle (.ok ()) middle (.inl rfl) fun run => rfl
  exact ((body _).recorded _ _).asFile.answer fun _ => source.length

namespace Store

open Act (Looks)

def raisedBy (key : Key) (hook : Hook) : Raised → Raised
  | .fault fault => .fault fault
  | .mishap mishap =>
    if mishap.isFailure then .fault (.hookFailed key hook.name mishap) else .mishap mishap

def afterHook (s : Store) (key : Key) (hook : Hook) : Except Raised Unit → World → World
  | .error (.mishap mishap), after =>
    if mishap.isFailure then (s.log .warning .protocol
      (("Extension hook " : Text) ++ hook.name ++ (" failed for " : Text) ++ key.display ++
        (": " : Text) ++ mishap.shown) after).2
    else after
  | _, after => after

theorem afterHook_stored (s : Store) (key : Key) (hook : Hook) (result : Except Raised Unit)
    (after : World) : (s.afterHook key hook result after).stored = after.stored := by
  unfold afterHook
  split
  · split <;> rfl
  · rfl

def beforeHook (s : Store) (key : Key) (hook : Hook) (w : World) : World :=
  (s.log .debug .protocol
    (("Running extension hook " : Text) ++ hook.name ++ (" for " : Text) ++ key.display) w).2

theorem runHook_eq (run : ScriptRunner) (s : Store) (key : Key) (hook : Hook) (w : World) :
    s.runHook run key hook w =
      let called := callHook run key hook (s.beforeHook key hook w)
      (called.1.mapError (raisedBy key hook), s.afterHook key hook called.1 called.2) := by
  rw [runHook, Act.bind_apply]
  change (Act.attempt (callHook run key hook) >>= _) (s.beforeHook key hook w) = _
  rw [Act.bind_apply, Act.attempt]
  cases callHook run key hook (s.beforeHook key hook w) with
  | mk result after =>
    cases result with
    | ok => rfl
    | error raised =>
      cases raised with
      | fault fault => rfl
      | mishap mishap =>
        change _ = (Except.error (raisedBy key hook (.mishap mishap)), _)
        simp only [afterHook, raisedBy]
        cases mishap.isFailure <;> rfl

theorem runHook_once (s : Store) (key : Key) (hook : Hook) (w : World) :
    Once () id (fun run => s.runHook run key hook) w :=
  .around (callHook_once key hook (s.beforeHook key hook w)) rfl
    (Except.mapError (raisedBy key hook)) (s.afterHook key hook) rfl
    (fun raised => ⟨raisedBy key hook raised, rfl⟩) (s.afterHook_stored key hook)
    fun run => runHook_eq run s key hook w

theorem execute_once (s : Store) (key : Key) (w : World) :
    Once () id (fun run => s.execute run key) w := by
  refine .after rfl fun v middle _ => ?_
  cases v.tables.hooks.get? key with
  | some hook => exact s.runHook_once key hook middle
  | none =>
    exact .after ((s.readKey_looks key).quiet.stored _) fun source middle _ =>
      (evaluate_once source (Text.decode key) middle).answer fun _ => ()

theorem loadKey_once (s : Store) (key : Key) (w : World) :
    Once .executed id (fun run => s.loadKey run key) w :=
  .recorded ((s.execute_once key w.forCall).answer fun _ => Outcome.executed) _ _

def Registers (feature : Except Raised Key) (more : Stored → Stored) : Prop :=
  more = id ∨ ∃ key, feature = .ok key ∧ more = Stored.mark key

theorem requireFeature_once (s : Store) (key feature : Key) (w : World) :
    Once .loaded (Stored.mark feature) (fun run => s.requireFeature run key feature) w := by
  refine .after rfl fun v middle _ => ?_
  cases v.tables.features.isLoaded feature with
  | true =>
    exact .idle (.ok .alreadyLoaded) (s.logAlreadyLoaded .protocol key middle).2 (.inl rfl)
      fun run => rfl
  | false =>
    have marked := markLoaded_apply feature
    refine .before (s.execute_once key middle) (fun after => (markLoaded feature after).2) ?_ ?_
    · intro after
      obtain ⟨log, ends⟩ := marked after
      rw [Act.bind_apply, ends]
      rfl
    · intro after
      obtain ⟨log, ends⟩ := marked after
      rw [ends]
      rfl

theorem requireKey_once (s : Store) (key : Key) (w : World) :
    ∃ more, Once .loaded more (fun run => s.requireKey run key) w ∧
      Registers (s.featureKey key w).1 more := by
  have kept := (s.featureKey_looks key).quiet.stored w
  cases named : (s.featureKey key w).1 with
  | error raised =>
    refine ⟨id, .after kept fun feature middle found => ?_, .inl rfl⟩
    rw [found] at named
    cases named
  | ok feature =>
    refine ⟨_, .after kept fun other middle found => ?_, .inr ⟨feature, rfl, rfl⟩⟩
    rw [found] at named
    cases named
    exact .recorded (s.requireFeature_once key feature _) _ _

theorem load_once (s : Store) (path : GivenPath) (w : World) :
    Once .executed id (fun run => s.load run path) w := by
  unfold load
  split
  · exact .after ((s.findOrRaise_looks _ path).quiet.stored w) fun found middle _ =>
      loadKey_once _ _ middle
  · exact .after ((s.resolve_looks path).quiet.stored w) fun key middle _ => s.loadKey_once key middle

theorem require_found {γ : Type} {x : Act γ} (quiet : Act.Quiet x) (part : γ → Store)
    (place : γ → Key) (w : World) :
    ∃ more, Once .loaded more (fun run => x >>= fun a => (part a).requireKey run (place a)) w ∧
      Registers ((x >>= fun a => (part a).featureKey (place a)) w).1 more := by
  have kept := quiet.stored w
  cases found : x w with
  | mk result middle =>
    cases result with
    | error raised =>
      refine ⟨id, .after kept fun a other again => ?_, .inl rfl⟩
      rw [found] at again
      cases again
    | ok a =>
      obtain ⟨more, once, registers⟩ := (part a).requireKey_once (place a) middle
      refine ⟨more, .after kept fun b other again => ?_, ?_⟩
      · rw [found] at again
        cases again
        exact once
      · rw [Act.bind_apply, found]
        exact registers

/-- What a require registers if it loads something is the feature of its path. -/
theorem require_once (s : Store) (path : GivenPath) (w : World) :
    ∃ more, Once .loaded more (fun run => s.require run path) w ∧
      Registers (s.featureOf path w).1 more := by
  unfold require featureOf
  cases s.backend with
  | searchPath roots =>
    have quiet := s.registeredIn_quiet path roots
    have kept := quiet.stored w
    cases asked : s.registeredIn path roots w with
    | mk result middle =>
      have unchanged := quiet.eq_log asked
      cases result with
      | error raised =>
        refine ⟨id, .after kept fun found other again => ?_, .inl rfl⟩
        rw [asked] at again
        cases again
      | ok registered =>
        cases registered with
        | some registered =>
          obtain ⟨key, feature⟩ := registered
          refine ⟨id, .after kept fun found other again => ?_, .inl rfl⟩
          rw [asked] at again
          cases again
          have body : Once .loaded id (fun _ : ScriptRunner => (do
              s.logAlreadyLoaded .searchPath key
              return .alreadyLoaded : Act Outcome)) middle.forCall :=
            .after rfl fun _ last _ => .idle (.ok .alreadyLoaded) last (.inl rfl) fun _ => rfl
          exact body.recorded (.require feature) .outcome
        | none =>
          have found := s.findOrRaise_looks roots path
          have named : Looks (s.findOrRaise roots path >>= fun found =>
              (s.nativeAt found.1).featureKey found.2) :=
            .bind found fun _ => featureKey_looks _ _
          have alike : middle.Alike w := by
            rw [unchanged]
            exact ⟨rfl, rfl, rfl, rfl⟩
          obtain ⟨more, once, registers⟩ := require_found found.quiet (s.nativeAt ·.1) (·.2) middle
          rw [named.answer alike] at registers
          refine ⟨more, .after kept fun found other again => ?_, registers⟩
          rw [asked] at again
          cases again
          exact once
  | _ => exact require_found (s.resolve_looks path).quiet (fun _ => s) id w

end Store

end Loadable
