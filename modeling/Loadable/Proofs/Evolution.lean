import Loadable.Host.Layout
import Loadable.Proofs.Lookup
import Loadable.Session.Run
/-!
What a session can do to the world: a few kinds of change, and calls that contain further changes.
Every step of a session, at any depth of scripts inside scripts, is made of these, so what they all
keep is kept by whole sessions.
-/
namespace Loadable

inductive Tables.Inserted : Tables → Tables → Prop where
  | write {t after : Tables} {key : Key} {data : Bytes} (done : t.write key data = .ok after) :
      Inserted t after
  | register {t : Tables} (key : Key) (given : GivenHook) : Inserted t (t.register key given).2
  | removeHook {t : Tables} (key : Key) : Inserted t { t with hooks := t.hooks.erase key }
  | registerHook {t : Tables} {key : Key} {given : GivenHook} {hooks : HookTable}
      (done : t.hooks.register key given = .ok hooks) : Inserted t { t with hooks := hooks }

inductive Host.Changed (host : Host) : Host → Prop where
  | writeKey (key : Key) (data : Bytes) : Changed host (host.writeKey key data).2
  | writeFile (path data : Bytes) : Changed host (host.apply (HostChange.writeFile path data))
  | makeDirectories (path : Bytes) : Changed host (host.apply (HostChange.makeDirectories path))
  | removeTree (path : Bytes) : Changed host (host.apply (HostChange.removeTree path))
  | symlink (path target : Bytes) : Changed host (host.apply (HostChange.symlink path target))
  | changeDirectory (path : Bytes) : Changed host (host.apply (HostChange.changeDirectory path))
  | changeMode (path : Bytes) (mode : Nat) :
      Changed host (host.apply (HostChange.changeMode path mode))

/-- How a world can come out of another one in the course of a session. A call starts with an empty
history of its own, which ends up inside the call's entry in the history around it. -/
inductive Evolves : World → World → Prop where
  /-- Notes are taken, or scripts are counted. -/
  | aside {w after : World} (tables : after.tables = w.tables) (host : after.host = w.host)
      (files : after.files = w.files) (history : after.history = w.history)
      (started : w.started <:+ after.started) : Evolves w after
  | host {w : World} {host : Host} (changed : w.host.Changed host) : Evolves w { w with host := host }
  | insert {w : World} {tables : Tables} (inserted : w.tables.Inserted tables) :
      Evolves w { w with tables := tables }
  | trans {w middle after : World} (first : Evolves w middle) (rest : Evolves middle after) :
      Evolves w after
  | source {w after : World} (filename : Text) (data : Bytes) (ended : Except Raised Answer)
      (body : Evolves { w.forCall with files := filename :: w.files } after) :
      Evolves w { after with
        files := after.files.tail
        history := w.history.call (.source filename data) after.history ended }
  | hook {w after : World} (key : Key) (hook : Hook) (ended : Except Raised Answer)
      (body : Evolves w.forCall after) :
      Evolves w { after with history := w.history.call (.hook key hook) after.history ended }
  | load {w after : World} (key : Key) (ended : Except Raised Answer)
      (body : Evolves w.forCall after) :
      Evolves w { after with history := w.history.call (.load key) after.history ended }
  /-- The feature is registered when the body has run to its end, and only then. -/
  | require {w after : World} (feature : Key)
      (unknown : w.tables.features.isLoaded feature = false)
      (body : Evolves w.forCall after) :
      Evolves w { after with
        tables := { after.tables with features := after.tables.features.mark feature }
        history := w.history.call (.require feature) after.history (.ok (.outcome .loaded)) }
  | requireFailed {w after : World} (feature : Key) (raised : Raised)
      (unknown : w.tables.features.isLoaded feature = false)
      (body : Evolves w.forCall after) :
      Evolves w { after with
        history := w.history.call (.require feature) after.history (.error raised) }
  | requireAgain {w : World} (feature : Key)
      (known : w.tables.features.isLoaded feature = true) :
      Evolves w { w with
        history := w.history.call (.require feature) .nothing (.ok (.outcome .alreadyLoaded)) }

namespace Act

variable {α β : Type}

def Evolving (x : Act α) : Prop :=
  ∀ w, Evolves w (x w).2

theorem Quiet.evolving {x : Act α} (quiet : Quiet x) : Evolving x := by
  intro w
  rw [quiet w]
  exact .aside rfl rfl rfl rfl List.suffix_rfl

theorem Looks.evolving {x : Act α} (looks : Looks x) : Evolving x :=
  looks.quiet.evolving

namespace Evolving

theorem note (e : Event) : Evolving (Act.note e) := fun _ => .aside rfl rfl rfl rfl List.suffix_rfl

theorem onHost {f : Host → Except Raised α × Host} (changed : ∀ host : Host, host.Changed (f host).2) :
    Evolving (Act.onHost f) :=
  fun w => .host (changed w.host)

theorem onTables {f : Tables → Except Raised α × Tables}
    (inserted : ∀ t, t.Inserted (f t).2 ∨ (f t).2 = t) : Evolving (Act.onTables f) := by
  intro w
  change Evolves w { w with tables := (f w.tables).2 }
  rcases inserted w.tables with change | same
  · exact .insert change
  · exact .aside same rfl rfl rfl List.suffix_rfl

theorem bind {x : Act α} {f : α → Act β} (first : Evolving x) (rest : ∀ a, Evolving (f a)) :
    Evolving (x >>= f) := by
  intro w
  have left := first w
  rw [bind_apply]
  cases run : x w with
  | mk result after =>
    rw [run] at left
    cases result with
    | error r => exact left
    | ok a => exact .trans left (rest a after)

theorem answer {x : Act α} (evolving : Evolving x) (f : α → β) :
    Evolving (do return f (← x)) :=
  .bind evolving fun _ => (Quiet.pure _).evolving

theorem attempt {x : Act α} (evolving : Evolving x) : Evolving (Act.attempt x) :=
  evolving

end Evolving

end Act

namespace Store

open Act (Evolving)

theorem writeMemory_evolving (s : Store) (key : Key) (data : Bytes) :
    Evolving (s.writeMemory key data) := by
  refine .bind (.onTables fun t => ?_) fun _ => (Act.Quiet.log _ _ _ _).evolving
  cases done : t.write key data with
  | ok after => exact .inl (.write done)
  | error fault => exact .inr rfl

theorem writeHost_evolving (s : Store) (key : Key) (data : Bytes) :
    Evolving (s.writeHost key data) :=
  .bind (.onHost fun _ => .writeKey key data) fun _ =>
    .bind (.onTables fun _ => .inl (.removeHook key)) fun _ => (Act.Quiet.log _ _ _ _).evolving

theorem writeKey_evolving (s : Store) (key : Key) (data : Bytes) :
    Evolving (s.writeKey key data) := by
  unfold writeKey
  split
  · exact s.writeMemory_evolving key data
  · exact s.writeHost_evolving key data
  · refine .bind (s.route_looks key).evolving fun side => ?_
    cases side with
    | memory => exact writeMemory_evolving _ key data
    | native => exact writeHost_evolving _ key data
  · exact (Act.Quiet.raise _).evolving

theorem write_evolving (s : Store) (path : GivenPath) (data : GivenData) :
    Evolving (s.write path data) :=
  .bind (s.resolve_looks path).evolving fun key =>
    .bind (Act.Quiet.ofMishap _).evolving fun bytes => s.writeKey_evolving key bytes

theorem registerMemory_evolving (key : Key) (given : GivenHook) :
    Evolving (registerMemory key given) :=
  .bind Act.Quiet.world.evolving fun _ => .bind (.onTables fun _ => .inl (.register key given))
    fun _ => (Act.Quiet.log _ _ _ _).evolving

theorem registerHost_evolving (key : Key) (given : GivenHook) :
    Evolving (registerHost key given) := by
  refine .bind Act.Quiet.world.evolving fun _ => .bind (.onTables fun t => ?_)
    fun _ => (Act.Quiet.log _ _ _ _).evolving
  cases done : t.hooks.register key given with
  | ok hooks => exact .inl (.registerHook done)
  | error mishap => exact .inr rfl

theorem registerKey_evolving (s : Store) (key : Key) (given : GivenHook) :
    Evolving (s.registerKey key given) := by
  unfold registerKey
  split
  · exact registerMemory_evolving key given
  · exact registerHost_evolving key given
  · refine .bind (s.route_looks key).evolving fun side => ?_
    cases side with
    | memory => exact registerMemory_evolving key given
    | native => exact registerHost_evolving key given
  · exact (Act.Quiet.raise _).evolving

theorem registerExtension_evolving (s : Store) (path : GivenPath) (given : GivenHook) :
    Evolving (s.registerExtension path given) :=
  .bind (s.resolve_looks path).evolving fun key => s.registerKey_evolving key given

end Store

def ScriptRunner.Evolving (run : ScriptRunner) : Prop :=
  ∀ script, Act.Evolving (run script)

open Act (Evolving)

theorem runSource_evolving {run : ScriptRunner} (scripts : run.Evolving) (source : Bytes)
    (filename : Text) : Evolving (runSource run source filename) := by
  refine .bind (.note _) fun _ => ?_
  split
  · exact scripts _
  · exact (Act.Quiet.pure ()).evolving

theorem evaluate_evolving {run : ScriptRunner} (scripts : run.Evolving) (source : Bytes)
    (filename : Text) : Evolving (evaluate run source filename) := by
  refine .bind ?_ fun _ => (Act.Quiet.pure _).evolving
  intro w
  exact .source filename source _ (runSource_evolving scripts source filename _)

theorem callHook_evolving {run : ScriptRunner} (scripts : run.Evolving) (key : Key) (hook : Hook) :
    Evolving (callHook run key hook) := by
  have body : Evolving (do Act.note (.hookCalled hook.script); run hook.script) :=
    .bind (.note _) fun _ => scripts _
  intro w
  exact .hook key hook _ (body _)

namespace Store

theorem runHook_evolving {run : ScriptRunner} (scripts : run.Evolving) (s : Store) (key : Key)
    (hook : Hook) : Evolving (s.runHook run key hook) := by
  refine .bind (Act.Quiet.log _ _ _ _).evolving fun _ =>
    .bind (callHook_evolving scripts key hook).attempt fun result => ?_
  split
  · exact (Act.Quiet.pure ()).evolving
  · exact (Act.Quiet.raise _).evolving
  · split
    · exact .bind (Act.Quiet.log _ _ _ _).evolving fun _ => (Act.Quiet.raise _).evolving
    · exact (Act.Quiet.raise _).evolving

theorem execute_evolving {run : ScriptRunner} (scripts : run.Evolving) (s : Store) (key : Key) :
    Evolving (s.execute run key) := by
  refine .bind Act.Quiet.world.evolving fun w => ?_
  split
  · exact s.runHook_evolving scripts key _
  · exact .bind (s.readKey_looks key).evolving fun source =>
      .bind (evaluate_evolving scripts source _) fun _ => (Act.Quiet.pure ()).evolving

theorem markLoaded_apply (feature : Key) (w : World) :
    ∃ log, markLoaded feature w = (.ok (), { w with
      tables := { w.tables with features := w.tables.features.mark feature }
      log := log }) := by
  cases known : w.tables.features.isLoaded feature with
  | true => exact ⟨w.log, by simp [markLoaded, Act.bind_apply, Act.world, Act.onTables, known]⟩
  | false => exact ⟨_, by simp [markLoaded, Act.bind_apply, Act.world, Act.onTables, known]; rfl⟩

theorem requireFeature_known (run : ScriptRunner) (s : Store) (key : Key) {feature : Key}
    {w : World} (known : w.tables.features.isLoaded feature = true) :
    ∃ log, s.requireFeature run key feature w = (.ok .alreadyLoaded, { w with log := log }) := by
  obtain ⟨log, logged⟩ : ∃ log, s.logAlreadyLoaded .protocol key w = (.ok (), { w with log := log }) :=
    ⟨_, rfl⟩
  exact ⟨log, by simp [requireFeature, Act.bind_apply, Act.world, known, logged]⟩

theorem requireFeature_failed {run : ScriptRunner} {s : Store} {key feature : Key} {r : Raised}
    {w after : World} (unknown : w.tables.features.isLoaded feature = false)
    (failed : s.execute run key w = (.error r, after)) :
    s.requireFeature run key feature w = (.error r, after) := by
  simp [requireFeature, Act.bind_apply, Act.world, unknown, failed]

theorem requireFeature_done {run : ScriptRunner} {s : Store} {key feature : Key}
    {w after : World} (unknown : w.tables.features.isLoaded feature = false)
    (done : s.execute run key w = (.ok (), after)) :
    ∃ log, s.requireFeature run key feature w = (.ok .loaded, { after with
      tables := { after.tables with features := after.tables.features.mark feature }
      log := log }) := by
  obtain ⟨log, marked⟩ := markLoaded_apply feature after
  exact ⟨log, by simp [requireFeature, Act.bind_apply, Act.world, unknown, done, marked]⟩

theorem requireKey_evolving {run : ScriptRunner} (scripts : run.Evolving) (s : Store) (key : Key) :
    Evolving (s.requireKey run key) := by
  refine .bind (s.featureKey_looks key).evolving fun feature w => ?_
  rw [Act.recorded_apply]
  cases known : w.tables.features.isLoaded feature with
  | true =>
    obtain ⟨log, again⟩ := s.requireFeature_known run key (w := w.forCall) known
    rw [again]
    exact .trans (.requireAgain feature known) (.aside rfl rfl rfl rfl List.suffix_rfl)
  | false =>
    have body := s.execute_evolving scripts key w.forCall
    cases executed : s.execute run key w.forCall with
    | mk result after =>
      rw [executed] at body
      cases result with
      | error r =>
        rw [requireFeature_failed (w := w.forCall) known executed]
        exact .requireFailed feature r known body
      | ok =>
        obtain ⟨log, done⟩ := requireFeature_done (w := w.forCall) known executed
        rw [done]
        exact .trans (.require feature known body) (.aside rfl rfl rfl rfl List.suffix_rfl)

theorem loadKey_evolving {run : ScriptRunner} (scripts : run.Evolving) (s : Store) (key : Key) :
    Evolving (s.loadKey run key) := by
  have body : Evolving (do s.execute run key; return Outcome.executed) :=
    .bind (s.execute_evolving scripts key) fun _ => (Act.Quiet.pure _).evolving
  intro w
  exact .load key _ (body _)

theorem registeredIn_isLoaded {s : Store} {path : GivenPath} {roots : List Text} {key feature : Key}
    {w after : World} (found : s.registeredIn path roots w = (.ok (some (key, feature)), after)) :
    w.tables.features.isLoaded feature = true := by
  induction roots generalizing w with
  | nil => cases found
  | cons root roots ih =>
    rw [registeredIn] at found
    obtain ⟨own, first, resolved, found⟩ := Act.bind_ok found
    obtain ⟨candidate, second, asked, found⟩ := Act.bind_ok found
    obtain ⟨world, third, seen, found⟩ := Act.bind_ok found
    cases seen
    have tables : second.tables = w.tables :=
      ((OnHost.featureKey_looks _ _).quiet.tables_eq asked).trans
        ((Act.Quiet.of _).tables_eq resolved)
    split at found
    case isTrue known =>
      cases found
      rw [← tables]
      exact known
    case isFalse =>
      rw [← tables]
      exact ih found

theorem require_evolving {run : ScriptRunner} (scripts : run.Evolving) (s : Store)
    (path : GivenPath) : Evolving (s.require run path) := by
  unfold require
  split
  · rename_i roots _
    intro w
    have quiet := s.registeredIn_quiet path roots
    have looked : Evolves w (s.registeredIn path roots w).2 := quiet.evolving w
    rw [Act.bind_apply]
    cases asked : s.registeredIn path roots w with
    | mk result after =>
      rw [asked] at looked
      match result with
      | .error r => exact looked
      | .ok none =>
        refine .trans looked (Evolving.bind (s.findOrRaise_looks roots path).evolving ?_ after)
        exact fun found => requireKey_evolving scripts _ _
      | .ok (some (key, feature)) =>
        have known := registeredIn_isLoaded asked
        rw [← quiet.tables_eq asked] at known
        exact .trans looked
          (.trans (.requireAgain feature known) (.aside rfl rfl rfl rfl List.suffix_rfl))
  · exact .bind (s.resolve_looks path).evolving fun key => s.requireKey_evolving scripts key

theorem load_evolving {run : ScriptRunner} (scripts : run.Evolving) (s : Store)
    (path : GivenPath) : Evolving (s.load run path) := by
  unfold load
  split
  · exact .bind (s.findOrRaise_looks _ path).evolving fun found => loadKey_evolving scripts _ _
  · exact .bind (s.resolve_looks path).evolving fun key => s.loadKey_evolving scripts key

end Store

namespace Interpreter

variable {run : ScriptRunner}

theorem requireName_evolving (scripts : run.Evolving) (s : Store) (name : Text) :
    Evolving (requireName run s name) := by
  refine .bind (anyRequired_quiet s _).evolving fun required => ?_
  split
  · exact .bind (Act.Quiet.log _ _ _ _).evolving fun _ => (Act.Quiet.pure _).evolving
  · refine .bind (firstFile_looks s _).evolving fun found => ?_
    split
    · exact .bind (s.require_evolving scripts _) fun _ =>
        .bind (Act.Quiet.log _ _ _ _).evolving fun _ => (Act.Quiet.pure _).evolving
    · exact (Act.Quiet.raise _).evolving

theorem require_evolving (scripts : run.Evolving) (s : Store) (name : GivenPath) :
    Evolving (require run s name) :=
  .bind (Act.Quiet.ofMishap _).evolving fun _ => requireName_evolving scripts s _

theorem load_evolving (scripts : run.Evolving) (s : Store) (name : GivenPath) :
    Evolving (load run s name) :=
  .bind (s.load_evolving scripts name) fun _ => (Act.Quiet.pure _).evolving

theorem requireRelative_evolving (scripts : run.Evolving) (s : Store) (name : GivenPath) :
    Evolving (requireRelative run s name) :=
  .bind (Act.Quiet.ofMishap _).evolving fun _ => .bind currentFile_quiet.evolving fun _ =>
    requireName_evolving scripts s _

theorem preloadSource_evolving (s : Store) (path : GivenPath) (data : GivenData) :
    Evolving (preloadSource s path data) :=
  .bind (underLoadRoot_looks s path).evolving fun _ => s.write_evolving _ data

theorem preloadHook_evolving (s : Store) (path : GivenPath) (given : GivenHook) :
    Evolving (preloadHook s path given) :=
  .bind (underLoadRoot_looks s path).evolving fun _ => s.registerExtension_evolving _ given

end Interpreter

namespace Session

variable {run : ScriptRunner}

theorem changeHost_evolving {change : HostChange Unit}
    (changed : ∀ host : Host, host.Changed (host.apply change)) : Evolving (changeHost change) := by
  refine .bind (.onHost fun host => ?_) fun _ => (Act.Quiet.pure _).evolving
  have left := changed host
  unfold Host.apply at left
  cases ran : change.run.run host with
  | mk result after =>
    rw [ran] at left
    cases result <;> exact left

theorem hostBytes_looks (path : Text) : Act.Looks (hostBytes path) := by
  unfold hostBytes
  split
  · exact .pure _
  · exact .raise _

theorem writeFile_evolving (path : Bytes) (data : GivenData) : Evolving (writeFile path data) := by
  cases data with
  | bytes data => exact changeHost_evolving fun _ => .writeFile path data
  | unusable typeName =>
    exact .bind (changeHost_evolving fun _ => .writeFile path []) fun _ =>
      (Act.Quiet.raise _).evolving

theorem hostMode_quiet (path : Bytes) : Act.Quiet (hostMode path) := by
  unfold hostMode
  split
  · exact .raise _
  · refine .bind .world fun w => ?_
    split
    · exact .pure _
    · exact .raise _

theorem below_evolving {β : Type} (base : Place) (file : Text) {f : Bytes → Act β}
    (rest : ∀ path, Evolving (f path)) : Evolving (below base file >>= f) :=
  .bind (hostBytes_looks _).evolving rest

theorem noSuchOperation_evolving {α : Type} : Evolving (noSuchOperation : Act α) :=
  (Act.Quiet.raise _).evolving

theorem act_evolving (scripts : run.Evolving) (base : Place) (s : Store) (action : Action) :
    Evolving (act run base s action) := by
  cases action with
  | resolve path => exact (s.resolve_looks path).evolving.answer _
  | contains path => exact (s.contains_looks path).evolving.answer _
  | isDirectory path => exact (s.isDirectory_looks path).evolving.answer _
  | isRequired path => exact (s.isRequired_quiet path).evolving.answer _
  | read path => exact (s.read_looks path).evolving.answer _
  | write path data => exact (s.write_evolving path data).answer _
  | registerExtension path given => exact (s.registerExtension_evolving path given).answer _
  | extension path =>
    refine .bind (s.extension_looks path).evolving fun found => ?_
    split <;> exact (Act.Quiet.pure _).evolving
  | servedBy path => exact (s.servedBy_looks path).evolving.answer _
  | require path => exact (s.require_evolving scripts path).answer _
  | load path => exact (s.load_evolving scripts path).answer _
  | entry path =>
    simp only [act]
    split
    · exact (s.entry_looks path).evolving.answer _
    · exact noSuchOperation_evolving
  | featureKey key => exact (s.featureKey_looks key).evolving.answer _
  | delegateFor key =>
    simp only [act]
    split
    · refine .bind (s.route_looks key).evolving fun side => ?_
      cases side <;> exact (Act.Quiet.pure _).evolving
    · exact noSuchOperation_evolving
  | keyExists key => exact (s.containsKey_looks key).evolving.answer _
  | keyIsDirectory key => exact (s.keyIsDirectory_looks key).evolving.answer _
  | keyRead key => exact (s.readKey_looks key).evolving.answer _
  | describe => exact (Act.Quiet.pure _).evolving
  | roots =>
    simp only [act]
    split
    · exact (Act.Quiet.pure _).evolving
    · exact noSuchOperation_evolving
  | features => exact Act.Quiet.world.evolving.answer _
  | hookCount => exact Act.Quiet.world.evolving.answer _
  | requireName name => exact (Interpreter.require_evolving scripts s name).answer _
  | loadName name => exact (Interpreter.load_evolving scripts s name).answer _
  | requireRelative name => exact (Interpreter.requireRelative_evolving scripts s name).answer _
  | currentFile =>
    refine .bind Interpreter.currentFile_quiet.evolving fun found => ?_
    split <;> exact (Act.Quiet.pure _).evolving
  | evaluate source filename =>
    exact .bind (Act.Quiet.ofMishap _).evolving fun data =>
      (evaluate_evolving scripts data filename).answer _
  | preloadSource path data => exact (Interpreter.preloadSource_evolving s path data).answer _
  | preloadHook path given => exact (Interpreter.preloadHook_evolving s path given).answer _
  | raise raised => exact (Act.Quiet.raise raised).evolving
  | hostWrite file data => exact below_evolving base file fun path => writeFile_evolving path data
  | hostMakeDirectories file =>
    exact below_evolving base file fun path => changeHost_evolving fun _ => .makeDirectories path
  | hostRemove file =>
    exact below_evolving base file fun path => changeHost_evolving fun _ => .removeTree path
  | hostLink file target =>
    exact .bind (hostBytes_looks target).evolving fun target =>
      below_evolving base file fun path => changeHost_evolving fun _ => .symlink path target
  | hostChangeDirectory file =>
    exact below_evolving base file fun path => changeHost_evolving fun _ => .changeDirectory path
  | hostChangeMode file mode =>
    exact below_evolving base file fun path => changeHost_evolving fun _ => .changeMode path mode
  | hostMode file =>
    exact below_evolving base file fun path => (hostMode_quiet path).evolving.answer _
  | hostList =>
    exact .bind Act.Quiet.world.evolving fun _ => (Act.Quiet.ofMishap _).evolving.answer _

theorem step_evolving (scripts : run.Evolving) (setup : Setup) (st : Step) :
    Evolving (step run setup st) := by
  unfold step
  split
  · exact .bind (Act.Quiet.ofMishap _).evolving fun part => act_evolving scripts _ part _
  · exact act_evolving scripts _ _ _

theorem runSteps_evolving {perform : Step → Act Answer} (steps : ∀ st, Evolving (perform st))
    (script : List ScriptStep) : Evolving (runSteps perform script) := by
  induction script with
  | nil => exact (Act.Quiet.pure ()).evolving
  | cons st rest ih =>
    rw [runSteps]
    refine .bind (steps st.step).attempt fun result => ?_
    split
    · exact .bind (.note _) fun _ => ih
    · split
      · exact .bind (.note _) fun _ => ih
      · exact (Act.Quiet.raise _).evolving

theorem nextRun_evolving (scripts : Scripts) (script : Text) : Evolving (nextRun scripts script) := by
  intro w
  rw [nextRun_eq]
  exact .aside rfl rfl rfl rfl (List.suffix_cons _ _)

/-- Scripts nest to any depth without doing more than their steps do. -/
theorem runScript_evolving (setup : Setup) (depth : Nat) : (runScript setup depth).Evolving := by
  induction depth with
  | zero => exact fun script => (nextRun_evolving setup.scripts script).answer fun _ => ()
  | succ depth ih =>
    exact fun script => .bind (nextRun_evolving setup.scripts script) fun script =>
      runSteps_evolving (step_evolving ih setup) script

section Reached

variable {setup : Setup} {w first reached : World}

theorem nextRun_evolves {script : Text} {steps : List ScriptStep}
    (next : nextRun setup.scripts script w = (.ok steps, first)) : Evolves w first := by
  have evolves := nextRun_evolving setup.scripts script w
  rwa [next] at evolves

theorem runSteps_evolves {depth : Nat} {past : List ScriptStep}
    (reaches : runSteps (step (runScript setup depth) setup) past first = (.ok (), reached)) :
    Evolves first reached := by
  have evolves := runSteps_evolving (step_evolving (runScript_evolving setup depth) setup) past first
  rwa [reaches] at evolves

end Reached

theorem report_evolves (setup : Setup) (st : Step) (w : World) :
    Evolves w (report setup st w).2 := by
  have start : Evolves w { w with events := [], log := [] } := .aside rfl rfl rfl rfl List.suffix_rfl
  exact start.trans (step_evolving (runScript_evolving setup _) setup st _)

theorem run_evolves (setup : Setup) (steps : List Step) (w : World) :
    Evolves w (Session.run setup steps w).2 := by
  induction steps generalizing w with
  | nil => exact .aside rfl rfl rfl rfl List.suffix_rfl
  | cons st rest ih => exact .trans (report_evolves setup st w) (ih _)

end Session

end Loadable
