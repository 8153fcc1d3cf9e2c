import Loadable.Proofs.Once
import Loadable.Session.Run
/-!
The hook or the source that an act runs. There is at most one, apart from what its script goes on to
run; if its script fails, so does the act. A script goes on step by step until one fails.
-/
namespace Loadable

namespace Call

def script? : Call → Option Text
  | hook _ h => some h.script
  | source _ data => scriptOf? data
  | require _ | load _ => none

def passes : Call → Raised → Raised
  | hook key h, raised => Store.raisedBy key h raised
  | source _ _, raised | require _, raised | load _, raised => raised

def files : Call → List Text
  | source filename _ => [filename]
  | hook _ _ | require _ | load _ => []

end Call

namespace History

/-- The single hook or source that was run, be it inside of requires and loads, with the calls that
were made in it and how it ended. -/
def body? : History → Option (Call × History × Except Raised Answer)
  | call nothing (.require _) within _ | call nothing (.load _) within _ => within.body?
  | call nothing made within ended => some (made, within, ended)
  | _ => none

theorem body?_call {made : Call} {script : Text} (named : made.script? = some script)
    (within : History) (ended : Except Raised Answer) :
    (call nothing made within ended).body? = some (made, within, ended) := by
  cases made with
  | require _ => cases named
  | load _ => cases named
  | hook _ _ => rfl
  | source _ _ => rfl

end History

namespace Act

variable {α β : Type}

/-- From this world the act makes a call to a hook or a source, which runs the script, starting in the
other world with what is stored here. It does so whatever it is that scripts do. -/
structure Makes (x : ScriptRunner → Act α) (w : World) (made : Call) (script : Text) (start : World) :
    Prop where
  named : made.script? = some script
  stored : start.stored = w.stored
  started : start.started = w.started
  all : ∀ run, ∃ since, (x run w).2.history = w.history ++ since ∧
    since.body? =
      some (made, (run script start).2.history, (run script start).1.map fun () => .nothing)

theorem Makes.call {x : ScriptRunner → Act α} {w : World} (made : Call) (script : Text) (start : World)
    (named : made.script? = some script) (stored : start.stored = w.stored)
    (started : start.started = w.started)
    (history : ∀ run, (x run w).2.history = w.history.call made (run script start).2.history
      ((run script start).1.map fun () => .nothing)) : Makes x w made script start :=
  ⟨named, stored, started,
    fun run => ⟨_, (history run).trans (History.append_call _ .nothing _ _ _).symm,
      History.body?_call named _ _⟩⟩

theorem eq_of_map_nothing {x y : Except Raised Unit}
    (same : x.map (fun () => Answer.nothing) = y.map fun () => .nothing) : x = y := by
  cases x with
  | ok =>
    cases y with
    | ok => rfl
    | error raised => cases same
  | error raised =>
    cases y with
    | ok => cases same
    | error other =>
      cases same
      rfl

/-- There is no other call: what was run is known from what it left. -/
theorem Makes.agree {x : ScriptRunner → Act α} {w start entered : World} {made other : Call}
    {script name : Text} (makes : Makes x w made script start) (again : Makes x w other name entered)
    {run copy : ScriptRunner} (same : x run w = x copy w) :
    made = other ∧ (run script start).1 = (copy name entered).1 := by
  obtain ⟨since, history, body⟩ := makes.all run
  obtain ⟨more, later, twin⟩ := again.all copy
  rw [same, later] at history
  rw [History.append_left_cancel history, body] at twin
  obtain ⟨called, ended⟩ := Prod.mk.inj (Option.some.inj twin)
  exact ⟨called, eq_of_map_nothing (Prod.mk.inj ended).2⟩

section Makes

variable {x : ScriptRunner → Act α} {w start entered : World} {made : Call} {script : Text}

theorem Makes.around (makes : Makes x start made script entered) {y : ScriptRunner → Act β}
    (stored : start.stored = w.stored) (started : start.started = w.started)
    (kept : ∀ run since, (x run start).2.history = start.history ++ since → ∃ more,
      (y run w).2.history = w.history ++ more ∧ more.body? = since.body?) :
    Makes y w made script entered := by
  refine ⟨makes.named, makes.stored.trans stored, makes.started.trans started, fun run => ?_⟩
  obtain ⟨since, history, body⟩ := makes.all run
  obtain ⟨more, later, same⟩ := kept run since history
  exact ⟨more, later, same.trans body⟩

theorem Makes.answer (makes : Makes x w made script entered) (f : α → β) :
    Makes (fun run => do return f (← x run)) w made script entered := by
  refine makes.around rfl rfl fun run since history => ⟨since, ?_, rfl⟩
  rw [← history, bind_apply]
  cases x run w with
  | mk result after => cases result <;> rfl

theorem Makes.after {look : Act β} (quiet : Quiet look) {b : β} {middle : World}
    (looked : look w = (.ok b, middle)) {f : ScriptRunner → β → Act α}
    (makes : Makes (fun run => f run b) middle made script entered) :
    Makes (fun run => look >>= f run) w made script entered := by
  have unchanged := quiet.eq_log looked
  refine makes.around (by rw [unchanged]; rfl) (by rw [unchanged]) fun run since history =>
    ⟨since, ?_, rfl⟩
  rw [bind_apply, looked]
  exact history.trans (by rw [unchanged])

theorem Makes.recorded {outer : Call} (makes : Makes x w.forCall made script entered)
    (answer : α → Answer)
    (inner : ∀ within ended, (History.call .nothing outer within ended).body? = within.body?) :
    Makes (fun run => Act.recorded outer answer (x run)) w made script entered := by
  refine makes.around rfl rfl fun run since history =>
    ⟨.call .nothing outer since ((x run w.forCall).1.map answer), ?_, inner _ _⟩
  rw [← history.trans (History.nothing_append since)]
  rfl

/-- The script of a call has the run that it would have had before the call. -/
theorem Makes.next (makes : Makes x w made script start) {scripts : Scripts}
    {steps : List ScriptStep}
    (listed : ((scripts.find? (·.1 = script)).bind (·.2[w.started.count script]?)).getD [] = steps) :
    Session.nextRun scripts script start = (.ok steps, { start with started := script :: w.started }) := by
  rw [Session.nextRun_eq, makes.started, listed]

end Makes

def Carries (made : Call) (inner : Except Raised Unit) (outer : Except Raised α) : Prop :=
  match inner with
  | .ok () => ∃ a, outer = .ok a
  | .error raised => outer = .error (made.passes raised)

/-- From this world the act runs no script, or that of a single call; then it fails exactly if the
script does. The script starts with the call's own file on top of those that were being evaluated. -/
inductive Serves (x : ScriptRunner → Act α) (w : World) : Prop where
  | idle (same : ∀ run copy, x run w = x copy w) : Serves x w
  | runs {made : Call} {script : Text} {start : World} (makes : Makes x w made script start)
      (ends : ∀ run, Carries made (run script start).1 (x run w).1)
      (files : start.files = made.files ++ w.files) : Serves x w

namespace Serves

variable {x : ScriptRunner → Act α} {y : ScriptRunner → Act β} {w start : World}

theorem around (inner : Serves x start) (stored : start.stored = w.stored)
    (started : start.started = w.started) (files : start.files = w.files) (value : α → β)
    (finishing : Except Raised α → World → World)
    (kept : ∀ result after since, after.history = start.history ++ since → ∃ more,
      (finishing result after).history = w.history ++ more ∧ more.body? = since.body?)
    (all : ∀ run, y run w = ((x run start).1.map value, finishing (x run start).1 (x run start).2)) :
    Serves y w := by
  cases inner with
  | idle same => exact .idle fun run copy => by rw [all, all, same run copy]
  | @runs made script entered makes ends current =>
    refine .runs (makes.around stored started fun run since history => ?_) (fun run => ?_)
      (by rw [current, files])
    · rw [all]
      exact kept (x run start).1 _ since history
    · have carried := ends run
      rw [all]
      cases ran : (run script entered).1 with
      | ok =>
        rw [ran] at carried
        obtain ⟨a, done⟩ := carried
        exact ⟨value a, by rw [done]; rfl⟩
      | error raised =>
        rw [ran] at carried
        have failed : (x run start).1 = .error (made.passes raised) := carried
        change (x run start).1.map value = _
        rw [failed]
        rfl

theorem after {x : Act β} (quiet : Quiet x) {f : ScriptRunner → β → Act α}
    (rest : ∀ b middle, x w = (.ok b, middle) → Serves (fun run => f run b) middle) :
    Serves (fun run => x >>= f run) w := by
  cases looked : x w with
  | mk result middle =>
    have unchanged := quiet.eq_log looked
    cases result with
    | error raised => exact .idle fun run copy => by rw [bind_apply, bind_apply, looked]
    | ok b =>
      refine (rest b middle looked).around (by rw [unchanged]; rfl) (by rw [unchanged])
        (by rw [unchanged]) id
        (fun _ after => after) ?_ fun run => ?_
      · intro result after since history
        refine ⟨since, ?_, rfl⟩
        rw [history, unchanged]
      · rw [bind_apply, looked]
        change f run b middle = ((f run b middle).1.map id, (f run b middle).2)
        cases f run b middle with
        | mk result after => cases result <;> rfl

def closing (last : α → World → World) : Except Raised α → World → World
  | .ok a => last a
  | .error _ => id

theorem before (inner : Serves x w) {f : α → Act β} (value : α → β) (last : α → World → World)
    (ends : ∀ a v, f a v = (.ok (value a), last a v))
    (kept : ∀ a v, (last a v).history = v.history) : Serves (fun run => x run >>= f) w := by
  refine inner.around rfl rfl rfl value (closing last) ?_ fun run => ?_
  · intro result after since history
    refine ⟨since, ?_, rfl⟩
    cases result with
    | ok a => exact (kept a after).trans history
    | error raised => exact history
  · rw [bind_apply]
    cases x run w with
    | mk result after =>
      cases result with
      | ok a => exact ends a after
      | error raised => rfl

theorem answer (inner : Serves x w) (f : α → β) : Serves (fun run => do return f (← x run)) w :=
  inner.before f (fun _ v => v) (fun _ _ => rfl) fun _ _ => rfl

theorem recorded {made : Call} (inner : Serves x w.forCall) (answer : α → Answer)
    (outer : ∀ within ended, (History.call .nothing made within ended).body? = within.body?) :
    Serves (fun run => Act.recorded made answer (x run)) w := by
  refine inner.around rfl rfl rfl id
    (fun result after =>
      { after with history := w.history.call made after.history (result.map answer) }) ?_ fun run => ?_
  · intro result after since history
    have same : after.history = since := by
      rw [history]
      exact History.nothing_append since
    exact ⟨.call .nothing made since (result.map answer), by rw [same]; rfl, outer _ _⟩
  · rw [recorded_apply]
    cases x run w.forCall with
    | mk result after => cases result <;> rfl

end Serves

/-- The call that an act makes is the one that decides how it ends and which files its script finds. -/
theorem Makes.served {x : ScriptRunner → Act α} {w start : World} {made : Call} {script : Text}
    (makes : Makes x w made script start) (serves : Serves x w) :
    (∀ run, Carries made (run script start).1 (x run w).1) ∧ start.files = made.files ++ w.files := by
  -- A script can tell in what it raises which files it found.
  let tell : ScriptRunner := fun script v => (.error (.fault (.inNoRoot script v.files)), v)
  cases serves with
  | idle same =>
    -- Scripts that fail and scripts that do not would leave the act the same.
    have both := (makes.agree makes (same tell fun _ => pure ())).2
    cases both
  | @runs _ name entered again ends files =>
    obtain ⟨rfl, told⟩ := makes.agree again (Eq.refl (x tell w))
    have alike : Except.error (Raised.fault (.inNoRoot script start.files)) =
        (Except.error (.fault (.inNoRoot name entered.files)) : Except Raised Unit) := told
    simp only [Except.error.injEq, Raised.fault.injEq, Fault.inNoRoot.injEq] at alike
    refine ⟨fun run => ?_, alike.2.trans files⟩
    rw [(makes.agree again (Eq.refl (x run w))).2]
    exact ends run

end Act

open Act (Serves Makes)

def World.entered (w : World) (e : Event) : World :=
  { w.forCall with events := e :: w.events }

theorem runSource_named {source : Bytes} {script : Text} (named : scriptOf? source = some script)
    (run : ScriptRunner) (filename : Text) : runSource run source filename =
      Act.note (.evaluated filename source) >>= fun _ => run script := by
  simp only [runSource, named]

theorem asFile_makes {source : Bytes} {script : Text} (named : scriptOf? source = some script)
    (filename : Text) (w : World) :
    Makes (fun run => Act.asFile filename (Act.recorded (.source filename source) (fun () => .nothing)
      (runSource run source filename))) w (.source filename source) script
      (World.entered { w with files := filename :: w.files } (.evaluated filename source)) := by
  simp only [runSource_named named]
  exact .call _ script _ named rfl rfl fun run => rfl

theorem evaluate_makes {source : Bytes} {script : Text} (named : scriptOf? source = some script)
    (filename : Text) (w : World) :
    Makes (fun run => evaluate run source filename) w (.source filename source) script
      (World.entered { w with files := filename :: w.files } (.evaluated filename source)) :=
  (asFile_makes named filename w).answer fun _ => source.length

theorem evaluate_serves (source : Bytes) (filename : Text) (w : World) :
    Serves (fun run => evaluate run source filename) w := by
  have body : Serves (fun run => Act.asFile filename (Act.recorded (.source filename source)
      (fun () => .nothing) (runSource run source filename))) w := by
    cases named : scriptOf? source with
    | none => exact .idle fun run copy => by simp only [runSource, named]
    | some script =>
      refine .runs (asFile_makes named filename w) (fun run => ?_) rfl
      simp only [runSource_named named]
      let start := World.entered { w with files := filename :: w.files } (.evaluated filename source)
      change Act.Carries _ _ (run script start).1
      cases (run script start).1 with
      | ok => exact ⟨(), rfl⟩
      | error raised => rfl
  exact body.answer fun _ => source.length

namespace Store

theorem afterHook_history (s : Store) (key : Key) (hook : Hook) (result : Except Raised Unit)
    (after : World) : (s.afterHook key hook result after).history = after.history := by
  unfold afterHook
  split
  · split <;> rfl
  · rfl

theorem runHook_makes (s : Store) (key : Key) (hook : Hook) (w : World) :
    Makes (fun run => s.runHook run key hook) w (.hook key hook) hook.script
      ((s.beforeHook key hook w).entered (.hookCalled hook.script)) := by
  refine .call _ _ _ rfl rfl rfl fun run => ?_
  rw [runHook_eq, afterHook_history]
  rfl

/-- A hook runs its script, and answers for what that raises. -/
theorem runHook_serves (s : Store) (key : Key) (hook : Hook) (w : World) :
    Serves (fun run => s.runHook run key hook) w := by
  refine .runs (s.runHook_makes key hook w) (fun run => ?_) rfl
  rw [runHook_eq]
  change Act.Carries _ _ ((run hook.script
    ((s.beforeHook key hook w).entered (.hookCalled hook.script))).1.mapError _)
  cases (run hook.script ((s.beforeHook key hook w).entered (.hookCalled hook.script))).1 with
  | ok => exact ⟨(), rfl⟩
  | error raised => rfl

theorem execute_serves (s : Store) (key : Key) (w : World) :
    Serves (fun run => s.execute run key) w := by
  refine .after .world fun v middle _ => ?_
  cases v.tables.hooks.get? key with
  | some hook => exact s.runHook_serves key hook middle
  | none =>
    exact .after (s.readKey_looks key).quiet fun source middle _ =>
      (evaluate_serves source (Text.decode key) middle).answer fun _ => ()

theorem requireFeature_serves (s : Store) (key feature : Key) (w : World) :
    Serves (fun run => s.requireFeature run key feature) w := by
  refine .after .world fun v middle _ => ?_
  cases v.tables.features.isLoaded feature with
  | true => exact .idle fun run copy => rfl
  | false =>
    refine (s.execute_serves key middle).before (fun _ => Outcome.loaded)
      (fun _ after => (markLoaded feature after).2) (fun _ after => ?_) fun _ after => ?_
    · obtain ⟨log, marked⟩ := markLoaded_apply feature after
      rw [Act.bind_apply, marked]
      rfl
    · obtain ⟨log, marked⟩ := markLoaded_apply feature after
      rw [marked]

theorem requireKey_serves (s : Store) (key : Key) (w : World) :
    Serves (fun run => s.requireKey run key) w :=
  .after (s.featureKey_looks key).quiet fun feature _ _ =>
    (s.requireFeature_serves key feature _).recorded _ fun _ _ => rfl

theorem loadKey_serves (s : Store) (key : Key) (w : World) :
    Serves (fun run => s.loadKey run key) w :=
  ((s.execute_serves key w.forCall).answer fun _ => Outcome.executed).recorded _ fun _ _ => rfl

theorem require_serves (s : Store) (path : GivenPath) (w : World) :
    Serves (fun run => s.require run path) w := by
  unfold require
  cases s.backend with
  | searchPath roots =>
    refine .after (s.registeredIn_quiet path roots) fun registered middle _ => ?_
    cases registered with
    | some registered => exact .idle fun run copy => rfl
    | none =>
      exact .after (s.findOrRaise_looks roots path).quiet fun found last _ =>
        requireKey_serves _ _ last
  | _ => exact .after (s.resolve_looks path).quiet fun key last _ => s.requireKey_serves key last

theorem load_serves (s : Store) (path : GivenPath) (w : World) :
    Serves (fun run => s.load run path) w := by
  unfold load
  cases s.backend with
  | searchPath roots =>
    exact .after (s.findOrRaise_looks roots path).quiet fun found last _ => loadKey_serves _ _ last
  | _ => exact .after (s.resolve_looks path).quiet fun key last _ => s.loadKey_serves key last

section Targets

variable {s : Store} {key : Key} {made : Call} {script : Text} {w : World}
  (named : made.script? = some script)

include named

theorem execute_makes (found : (s.callee key w).1 = .ok made) :
    ∃ start, Makes (fun run => s.execute run key) w made script start := by
  cases held : w.tables.hooks.get? key with
  | some hook =>
    rw [callee_hook s held] at found
    cases found
    cases named
    have makes := s.runHook_makes key hook w
    exact ⟨_, .after .world rfl (by simpa only [held] using makes)⟩
  | none =>
    rw [callee_source s held, Act.bind_apply] at found
    cases read : s.readKey key w with
    | mk result after =>
      rw [read] at found
      cases result with
      | error raised => cases found
      | ok source =>
        cases found
        have makes := (evaluate_makes named (Text.decode key) after).answer fun _ => ()
        have reads : Makes (fun run => do
            let source ← s.readKey key
            let _ ← evaluate run source (Text.decode key)) w _ script _ :=
          .after (s.readKey_looks key).quiet read makes
        exact ⟨_, .after .world rfl (by simpa only [held] using reads)⟩

theorem loadKey_makes (found : (s.callee key w).1 = .ok made) :
    ∃ start, Makes (fun run => s.loadKey run key) w made script start := by
  have same : (s.callee key w.forCall).1 = (s.callee key w).1 :=
    (s.callee_looks key).answer ⟨rfl, rfl, rfl, rfl⟩
  obtain ⟨start, makes⟩ := execute_makes named (same.trans found)
  exact ⟨start, (makes.answer fun _ => Outcome.executed).recorded _ fun _ _ => rfl⟩

theorem load_after_makes {α : Type} {x : Act α} (quiet : Act.Quiet x) (part : α → Store)
    (place : α → Key)
    (found : ((x >>= fun a => do return (place a, ← (part a).callee (place a))) w).1 =
      .ok (key, made)) :
    ∃ start, Makes (fun run => x >>= fun a => (part a).loadKey run (place a)) w made script start := by
  rw [Act.bind_apply] at found
  cases looked : x w with
  | mk result middle =>
    rw [looked] at found
    cases result with
    | error raised => cases found
    | ok a =>
      simp only [Act.bind_apply] at found
      cases called : (part a).callee (place a) middle with
      | mk callee after =>
        rw [called] at found
        cases callee with
        | error raised => cases found
        | ok callee =>
          cases found
          obtain ⟨start, makes⟩ := loadKey_makes named (congrArg Prod.fst called)
          exact ⟨start, .after quiet looked makes⟩

theorem load_makes {path : GivenPath} (found : (s.target path w).1 = .ok (key, made)) :
    ∃ start, Makes (fun run => s.load run path) w made script start := by
  unfold target at found
  unfold load
  cases kind : s.backend with
  | searchPath roots =>
    simp only [kind] at found
    exact load_after_makes named (s.findOrRaise_looks roots path).quiet (s.nativeAt ·.1) (·.2) found
  | _ =>
    simp only [kind] at found
    exact load_after_makes named (s.resolve_looks path).quiet (fun _ => s) id found

end Targets

end Store

namespace Interpreter

theorem requireName_serves (s : Store) (name : Text) (w : World) :
    Serves (fun run => requireName run s name) w := by
  refine .after (anyRequired_quiet s _) fun required middle _ => ?_
  cases required with
  | true => exact .idle fun run copy => rfl
  | false =>
    refine .after (firstFile_looks s _).quiet fun found last _ => ?_
    cases found with
    | none => exact .idle fun run copy => rfl
    | some candidate =>
      exact (s.require_serves _ last).before (fun outcome => decide (outcome = .loaded))
        (fun outcome after => (logRequire name outcome after).2) (fun _ _ => rfl) fun _ _ => rfl

end Interpreter

namespace Session

theorem act_serves (base : Place) (s : Store) (action : Action) (w : World) :
    Serves (fun run => act run base s action) w := by
  cases action with
  | require path => exact (s.require_serves path w).answer Answer.outcome
  | load path => exact (s.load_serves path w).answer Answer.outcome
  | requireName name =>
    refine Serves.answer (.after (.ofMishap _) fun name middle _ => ?_) Answer.flag
    exact Interpreter.requireName_serves s name middle
  | loadName name =>
    exact ((s.load_serves name w).answer fun _ => true).answer Answer.flag
  | requireRelative name =>
    refine Serves.answer (.after (.ofMishap _) fun name middle _ =>
      .after Interpreter.currentFile_quiet fun current last _ => ?_) Answer.flag
    exact Interpreter.requireName_serves s _ last
  | evaluate source filename =>
    exact .after (.ofMishap _) fun data middle _ =>
      (evaluate_serves data filename middle).answer Answer.count
  | _ => exact .idle fun run copy => rfl

/-- A step runs one hook or source itself, if any. -/
theorem step_serves (setup : Setup) (st : Step) (w : World) :
    Serves (fun run => step run setup st) w := by
  unfold step
  cases st.action.isOfStore with
  | true =>
    exact .after (.ofMishap _) fun part middle _ => act_serves setup.base part st.action middle
  | false => exact act_serves setup.base setup.store st.action w

/-- A step that loads calls the target that the path has in any world with the same things stored. -/
theorem step_load_makes {setup : Setup} {path : GivenPath} {key : Key} {made : Call} {script : Text}
    {w v : World} (named : made.script? = some script)
    (found : (setup.store.target path w).1 = .ok (key, made)) (same : v.stored = w.stored) :
    ∃ start, Makes (fun run => step run setup ⟨.whole, .load path⟩) v made script start := by
  rw [← (setup.store.target_looks path).of_stored same] at found
  obtain ⟨start, makes⟩ := Store.load_makes named found
  exact ⟨start, makes.answer Answer.outcome⟩

theorem step_evaluate_makes {setup : Setup} {source : Bytes} {script : Text}
    (named : scriptOf? source = some script) (filename : Text) (w : World) :
    Makes (fun run => step run setup ⟨.whole, .evaluate (.bytes source) filename⟩) w
      (.source filename source) script
      (World.entered { w with files := filename :: w.files } (.evaluated filename source)) :=
  (evaluate_makes named filename w).answer Answer.count

/-- After a step a script goes on with a note of it, unless the step raised something that it does not
rescue. -/
theorem runSteps_cons (take : Step → Act Answer) (st : ScriptStep) (w : World) :
    (∃ e, ∀ rest, runSteps take (st :: rest) w =
      runSteps take rest { (take st.step w).2 with events := e :: (take st.step w).2.events }) ∨
    (st.rescue = false ∧ ∃ raised, (take st.step w).1 = .error raised ∧
      ∀ rest, runSteps take (st :: rest) w = (.error raised, (take st.step w).2)) := by
  simp only [runSteps, Act.bind_apply, Act.attempt]
  cases take st.step w with
  | mk result after =>
    cases result with
    | ok answer => exact .inl ⟨_, fun rest => rfl⟩
    | error raised =>
      cases st.rescue with
      | true => exact .inl ⟨_, fun rest => rfl⟩
      | false => exact .inr ⟨rfl, raised, rfl, fun rest => rfl⟩

end Session

end Loadable
