import Loadable.Proofs.Evolution
import Loadable.Proofs.Inserts
/-!
The worlds that a session comes through, also in the middle of its scripts. In all of them the
tables have what they have at the start and what every insertion keeps.
-/
namespace Loadable

def Action.Callable : Action → Prop
  | registerExtension _ (.uncallable _) | preloadHook _ (.uncallable _) => False
  | _ => True

def Action.Asks : Action → Prop
  | resolve _ | contains _ | isDirectory _ | isRequired _ | read _ | extension _ | servedBy _
  | entry _ | featureKey _ | delegateFor _ | keyExists _ | keyIsDirectory _ | keyRead _ | describe
  | roots | features | hookCount | currentFile | raise _ | hostMode _ | hostList => True
  | _ => False

def Action.ChangesHost : Action → Prop
  | hostWrite _ _ | hostMakeDirectories _ | hostRemove _ | hostLink _ _ | hostChangeDirectory _
  | hostChangeMode _ _ => True
  | _ => False

/-- The action makes this insertion. An embedder's path gives way to one below the reserved directory. -/
inductive Action.Inserts : Action → Insertion → Prop where
  | write (path : GivenPath) (data : GivenData) : Inserts (.write path data) (.write path data)
  | register (path : GivenPath) (given : GivenHook) :
      Inserts (.registerExtension path given) (.register path given)
  | preloadSource (path below : GivenPath) (data : GivenData) :
      Inserts (.preloadSource path data) (.write below data)
  | preloadHook (path below : GivenPath) (given : GivenHook) :
      Inserts (.preloadHook path given) (.register below given)

theorem Action.Inserts.callable {action : Action} {i : Insertion} (inserts : action.Inserts i)
    (callable : action.Callable) : i.Callable := by
  cases inserts with
  | write path data => trivial
  | preloadSource path below data => trivial
  | register path given =>
    cases given with
    | hook h => trivial
    | uncallable typeName => exact callable.elim
  | preloadHook path below given =>
    cases given with
    | hook h => trivial
    | uncallable typeName => exact callable.elim

def Setup.Callable (setup : Setup) : Prop :=
  ∀ script ∈ setup.scripts, ∀ steps ∈ script.2, ∀ st ∈ steps, st.step.action.Callable

namespace Act

variable {α β : Type} {holds : Tables → Prop}

theorem Quiet.answer {x : Act α} (quiet : Quiet x) (f : α → β) : Quiet (do return f (← x)) :=
  .bind quiet fun _ => .pure _

def Keeps (holds : Tables → Prop) (x : Act α) : Prop :=
  ∀ w, holds w.tables → holds (x w).2.tables

theorem Quiet.keeps {x : Act α} (quiet : Quiet x) : Keeps holds x := by
  intro w before
  rw [quiet w]
  exact before

theorem Looks.keeps {x : Act α} (looks : Looks x) : Keeps holds x :=
  looks.quiet.keeps

namespace Keeps

theorem note (e : Event) : Keeps holds (Act.note e) := fun _ before => before

theorem onHost (f : Host → Except Raised α × Host) : Keeps holds (Act.onHost f) :=
  fun _ before => before

theorem bind {x : Act α} {f : α → Act β} (first : Keeps holds x) (rest : ∀ a, Keeps holds (f a)) :
    Keeps holds (x >>= f) := by
  intro w before
  have middle := first w before
  rw [bind_apply]
  cases run : x w with
  | mk result after =>
    rw [run] at middle
    cases result with
    | error raised => exact middle
    | ok a => exact rest a after middle

theorem answer {x : Act α} (kept : Keeps holds x) (f : α → β) : Keeps holds (do return f (← x)) :=
  .bind kept fun _ => (Quiet.pure _).keeps

theorem attempt {x : Act α} (kept : Keeps holds x) : Keeps holds (Act.attempt x) :=
  kept

theorem recorded {x : Act α} (kept : Keeps holds x) (made : Call) (answer : α → Answer) :
    Keeps holds (Act.recorded made answer x) :=
  fun w before => kept w.forCall before

theorem asFile {x : Act α} (kept : Keeps holds x) (filename : Text) :
    Keeps holds (Act.asFile filename x) :=
  fun w before => kept { w with files := filename :: w.files } before

end Keeps

end Act

open Act (Keeps)

theorem Insertion.act_keeps {holds : Tables → Prop} {flavor : Flavor} {cwd : Text} {i : Insertion}
    (kept : ∀ {t key}, Store.ownKey (.memory flavor cwd) i.path = .ok key → holds t →
      holds (t.insert key i).2) : Keeps holds (i.act (.memory flavor cwd)) := by
  intro w before
  cases resolved : Store.ownKey (.memory flavor cwd) i.path with
  | error raised => rwa [act_unresolved resolved]
  | ok key =>
    obtain ⟨log, ran, _⟩ := act_resolved (w := w) resolved
    rw [ran]
    exact kept resolved before

theorem Store.part_memory {flavor : Flavor} {cwd : Text} {part : Part} {s : Store}
    (found : Store.part (.memory flavor cwd) part = .ok s) : s = .memory flavor cwd := by
  cases part with
  | whole => exact (Except.ok.inj found).symm
  | memory => cases found
  | native => cases found
  | root index => cases found

section Running

variable {holds : Tables → Prop} {run : ScriptRunner}
  (scripts : ∀ script, Keeps holds (run script))

include scripts

theorem evaluate_keeps (source : Bytes) (filename : Text) :
    Keeps holds (evaluate run source filename) := by
  have body : Keeps holds (runSource run source filename) := by
    refine .bind (.note _) fun _ => ?_
    split
    · exact scripts _
    · exact (Act.Quiet.pure ()).keeps
  exact .bind ((body.recorded _ _).asFile filename) fun _ => (Act.Quiet.pure _).keeps

namespace Store

theorem runHook_keeps (s : Store) (key : Key) (hook : Hook) : Keeps holds (s.runHook run key hook) := by
  have body : Keeps holds (callHook run key hook) :=
    .recorded (.bind (.note _) fun _ => scripts _) _ _
  refine .bind (Act.Quiet.log _ _ _ _).keeps fun _ => .bind body.attempt fun result => ?_
  split
  · exact (Act.Quiet.pure ()).keeps
  · exact (Act.Quiet.raise _).keeps
  · split
    · exact .bind (Act.Quiet.log _ _ _ _).keeps fun _ => (Act.Quiet.raise _).keeps
    · exact (Act.Quiet.raise _).keeps

theorem execute_keeps (s : Store) (key : Key) : Keeps holds (s.execute run key) := by
  refine .bind Act.Quiet.world.keeps fun w => ?_
  split
  · exact runHook_keeps scripts s key _
  · exact .bind (s.readKey_looks key).keeps fun source =>
      .bind (evaluate_keeps scripts source _) fun _ => (Act.Quiet.pure ()).keeps

theorem loadKey_keeps (s : Store) (key : Key) : Keeps holds (s.loadKey run key) :=
  .recorded (.bind (execute_keeps scripts s key) fun _ => (Act.Quiet.pure _).keeps) _ _

theorem load_keeps (s : Store) (path : GivenPath) : Keeps holds (s.load run path) := by
  unfold load
  split
  · exact .bind (s.findOrRaise_looks _ path).keeps fun found => loadKey_keeps scripts _ _
  · exact .bind (s.resolve_looks path).keeps fun key => loadKey_keeps scripts s key

def Unrequired (holds : Tables → Prop) : Prop :=
  ∀ (t : Tables) (features : Registry), holds t → holds { t with features := features }

variable (unrequired : Unrequired holds)

include unrequired

theorem requireKey_keeps (s : Store) (key : Key) : Keeps holds (s.requireKey run key) := by
  refine .bind (s.featureKey_looks key).keeps fun feature => .recorded ?_ _ _
  refine .bind Act.Quiet.world.keeps fun w => ?_
  split
  · exact .bind (Act.Quiet.log _ _ _ _).keeps fun _ => (Act.Quiet.pure _).keeps
  · refine .bind (execute_keeps scripts s key) fun _ => .bind ?_ fun _ => (Act.Quiet.pure _).keeps
    intro w before
    obtain ⟨log, marked⟩ := markLoaded_apply feature w
    rw [marked]
    exact unrequired w.tables _ before

theorem require_keeps (s : Store) (path : GivenPath) : Keeps holds (s.require run path) := by
  unfold require
  split
  · refine .bind (s.registeredIn_quiet path _).keeps fun found => ?_
    split
    · exact .recorded (.bind (Act.Quiet.log _ _ _ _).keeps fun _ => (Act.Quiet.pure _).keeps) _ _
    · exact .bind (s.findOrRaise_looks _ path).keeps fun found => requireKey_keeps scripts unrequired _ _
  · exact .bind (s.resolve_looks path).keeps fun key => requireKey_keeps scripts unrequired s key

end Store

namespace Interpreter

variable (unrequired : Store.Unrequired holds)

include unrequired

theorem requireName_keeps (s : Store) (name : Text) : Keeps holds (requireName run s name) := by
  refine .bind (anyRequired_quiet s _).keeps fun required => ?_
  split
  · exact .bind (Act.Quiet.log _ _ _ _).keeps fun _ => (Act.Quiet.pure _).keeps
  · refine .bind (firstFile_looks s _).keeps fun found => ?_
    split
    · exact .bind (Store.require_keeps scripts unrequired s _) fun _ =>
        .bind (Act.Quiet.log _ _ _ _).keeps fun _ => (Act.Quiet.pure _).keeps
    · exact (Act.Quiet.raise _).keeps

end Interpreter

end Running

namespace Session

variable {holds : Tables → Prop}

theorem act_quiet (run : ScriptRunner) (base : Place) (s : Store) {action : Action}
    (asks : action.Asks) : Act.Quiet (act run base s action) := by
  cases action with
  | resolve path => exact (s.resolve_looks path).quiet.answer _
  | contains path => exact (s.contains_looks path).quiet.answer _
  | isDirectory path => exact (s.isDirectory_looks path).quiet.answer _
  | isRequired path => exact (s.isRequired_quiet path).answer _
  | read path => exact (s.read_looks path).quiet.answer _
  | extension path =>
    refine .bind (s.extension_looks path).quiet fun found => ?_
    split <;> exact .pure _
  | servedBy path => exact (s.servedBy_looks path).quiet.answer _
  | entry path =>
    simp only [act]
    split
    · exact (s.entry_looks path).quiet.answer _
    · exact .raise _
  | featureKey key => exact (s.featureKey_looks key).quiet.answer _
  | delegateFor key =>
    simp only [act]
    split
    · refine .bind (s.route_looks key).quiet fun side => ?_
      cases side <;> exact .pure _
    · exact .raise _
  | keyExists key => exact (s.containsKey_looks key).quiet.answer _
  | keyIsDirectory key => exact (s.keyIsDirectory_looks key).quiet.answer _
  | keyRead key => exact (s.readKey_looks key).quiet.answer _
  | describe => exact .pure _
  | roots =>
    simp only [act]
    split
    · exact .pure _
    · exact .raise _
  | features => exact Act.Quiet.world.answer _
  | hookCount => exact Act.Quiet.world.answer _
  | currentFile =>
    refine .bind Interpreter.currentFile_quiet fun found => ?_
    split <;> exact .pure _
  | raise raised => exact .raise raised
  | hostMode file =>
    exact .bind (hostBytes_looks _).quiet fun path => (hostMode_quiet path).answer _
  | hostList => exact .bind .world fun _ => (Act.Quiet.ofMishap _).answer _
  | _ => exact asks.elim

def InsertsKeep (holds : Tables → Prop) (s : Store) : Prop :=
  ∀ i : Insertion, i.Callable → Keeps holds (i.act s)

def StepKeeps (holds : Tables → Prop) (setup : Setup) (st : Step) : Prop :=
  ∀ part s, setup.store.part part = .ok s → ∀ i, st.action.Inserts i → Keeps holds (i.act s)

section Steps

variable {run : ScriptRunner} (scripts : ∀ script, Keeps holds (run script))
  (unrequired : Store.Unrequired holds)

theorem changeHost_keeps (change : HostChange Unit) : Keeps holds (changeHost change) :=
  .bind (.onHost _) fun _ => (Act.Quiet.pure _).keeps

theorem below_keeps {β : Type} (base : Place) (file : Text) {f : Bytes → Act β}
    (rest : ∀ path, Keeps holds (f path)) : Keeps holds (below base file >>= f) :=
  .bind (hostBytes_looks _).keeps rest

theorem changesHost_keeps (base : Place) (s : Store) {action : Action} (changes : action.ChangesHost) :
    Keeps holds (act run base s action) := by
  cases action with
  | hostWrite file data =>
    refine below_keeps base file fun path => ?_
    cases data with
    | bytes data => exact changeHost_keeps _
    | unusable typeName => exact .bind (changeHost_keeps _) fun _ => (Act.Quiet.raise _).keeps
  | hostMakeDirectories file => exact below_keeps base file fun _ => changeHost_keeps _
  | hostRemove file => exact below_keeps base file fun _ => changeHost_keeps _
  | hostLink file target =>
    exact .bind (hostBytes_looks target).keeps fun _ =>
      below_keeps base file fun _ => changeHost_keeps _
  | hostChangeDirectory file => exact below_keeps base file fun _ => changeHost_keeps _
  | hostChangeMode file mode => exact below_keeps base file fun _ => changeHost_keeps _
  | _ => exact changes.elim

include scripts unrequired

/-- An action keeps what the insertions keep that it makes: nothing else touches sources, hooks or
directories. -/
theorem act_keeps (base : Place) {s : Store} {action : Action}
    (inserts : ∀ i, action.Inserts i → Keeps holds (i.act s)) :
    Keeps holds (act run base s action) := by
  cases action with
  | write path data => exact (inserts _ (.write path data)).answer _
  | registerExtension path given => exact (inserts _ (.register path given)).answer _
  | preloadSource path data =>
    exact .bind (.bind (Interpreter.underLoadRoot_looks s path).keeps fun below =>
      inserts _ (.preloadSource path below data)) fun _ => (Act.Quiet.pure _).keeps
  | preloadHook path given =>
    exact .bind (.bind (Interpreter.underLoadRoot_looks s path).keeps fun below =>
      inserts _ (.preloadHook path below given)) fun _ => (Act.Quiet.pure _).keeps
  | require path => exact (Store.require_keeps scripts unrequired s path).answer _
  | load path => exact (Store.load_keeps scripts s path).answer _
  | requireName name =>
    exact (Keeps.bind (Act.Quiet.ofMishap _).keeps fun _ =>
      Interpreter.requireName_keeps scripts unrequired s _).answer _
  | loadName name => exact ((Store.load_keeps scripts s name).answer _).answer _
  | requireRelative name =>
    exact (Keeps.bind (Act.Quiet.ofMishap _).keeps fun _ =>
      .bind Interpreter.currentFile_quiet.keeps fun _ =>
        Interpreter.requireName_keeps scripts unrequired s _).answer _
  | evaluate source filename =>
    exact .bind (Act.Quiet.ofMishap _).keeps fun data => (evaluate_keeps scripts data filename).answer _
  | hostWrite _ _ => exact changesHost_keeps base s trivial
  | hostMakeDirectories _ => exact changesHost_keeps base s trivial
  | hostRemove _ => exact changesHost_keeps base s trivial
  | hostLink _ _ => exact changesHost_keeps base s trivial
  | hostChangeDirectory _ => exact changesHost_keeps base s trivial
  | hostChangeMode _ _ => exact changesHost_keeps base s trivial
  | _ =>
    refine Act.Quiet.keeps (act_quiet run base s ?_)
    trivial

theorem step_keeps {setup : Setup} {st : Step} (inserts : StepKeeps holds setup st) :
    Keeps holds (step run setup st) := by
  unfold step
  split
  · intro w before
    rw [Act.bind_apply]
    cases found : setup.store.part st.part with
    | error mishap => exact before
    | ok part => exact act_keeps scripts unrequired _ (inserts _ _ found) w before
  · exact act_keeps scripts unrequired _ (inserts .whole _ rfl)

end Steps

section Sessions

variable {setup : Setup} (unrequired : Store.Unrequired holds)

theorem runSteps_keeps {perform : Step → Act Answer} {script : List ScriptStep}
    (steps : ∀ st ∈ script, Keeps holds (perform st.step)) : Keeps holds (runSteps perform script) := by
  induction script with
  | nil => exact (Act.Quiet.pure ()).keeps
  | cons st rest ih =>
    have later := ih fun other member => steps other (List.mem_cons_of_mem st member)
    refine .bind (steps st List.mem_cons_self).attempt fun result => ?_
    split
    · exact .bind (.note _) fun _ => later
    · split
      · exact .bind (.note _) fun _ => later
      · exact (Act.Quiet.raise _).keeps

theorem nextRun_steps {scripts : Scripts} {script : Text} {w after : World} {steps : List ScriptStep}
    (next : nextRun scripts script w = (.ok steps, after)) :
    steps = [] ∨ ∃ entry ∈ scripts, steps ∈ entry.2 := by
  rw [nextRun_eq] at next
  cases next
  cases known : scripts.find? (·.1 = script) with
  | none => exact .inl rfl
  | some entry =>
    rw [Option.bind_some]
    cases run : entry.2[w.started.count script]? with
    | none => exact .inl rfl
    | some steps =>
      exact .inr ⟨entry, List.mem_of_find?_eq_some known, List.mem_of_getElem? run⟩

theorem nextRun_keeps (scripts : Scripts) (script : Text) : Keeps holds (nextRun scripts script) := by
  intro w before
  rw [nextRun_eq]
  exact before

include unrequired

theorem runScript_keeps (inserts : ∀ script ∈ setup.scripts, ∀ steps ∈ script.2, ∀ st ∈ steps,
    StepKeeps holds setup st.step) (depth : Nat) (script : Text) :
    Keeps holds (runScript setup depth script) := by
  induction depth generalizing script with
  | zero => exact .bind (nextRun_keeps _ script) fun _ => (Act.Quiet.pure ()).keeps
  | succ depth ih =>
    intro w before
    have kept := nextRun_keeps setup.scripts script w before
    rw [runScript, Act.bind_apply]
    cases next : nextRun setup.scripts script w with
    | mk result after =>
      rw [next] at kept
      cases result with
      | error raised => exact kept
      | ok steps =>
        refine runSteps_keeps (fun st member => ?_) after kept
        refine step_keeps ih unrequired ?_
        rcases nextRun_steps next with rfl | ⟨entry, known, listed⟩
        · exact absurd member List.not_mem_nil
        · exact inserts entry known steps listed st member

end Sessions

/-- The worlds that a session comes through: between its steps, and between the steps of its scripts,
where calls are going on around. -/
inductive Reachable (setup : Setup) : World → Prop where
  | fresh (w : World) : Reachable setup w.fresh
  | aside {w after : World} (reached : Reachable setup w) (tables : after.tables = w.tables) :
      Reachable setup after
  | step {w : World} (reached : Reachable setup w) (depth : Nat) (st : Step)
      (callable : st.action.Callable) :
      Reachable setup (step (runScript setup depth) setup st w).2

theorem run_reachable {setup : Setup} {steps : List Step} {w : World} (reached : Reachable setup w)
    (callable : ∀ st ∈ steps, st.action.Callable) : Reachable setup (run setup steps w).2 := by
  induction steps generalizing w with
  | nil => exact reached
  | cons st rest ih =>
    have observed : Reachable setup { w with events := [], log := [] } := .aside reached rfl
    exact ih (.step observed _ st (callable st List.mem_cons_self)) fun other member =>
      callable other (List.mem_cons_of_mem st member)

theorem Reachable.keeps {setup : Setup} {w : World} (reached : Reachable setup w)
    (callable : setup.Callable) (unrequired : Store.Unrequired holds)
    (inserts : ∀ part s, setup.store.part part = .ok s → InsertsKeep holds s) (empty : holds {}) :
    holds w.tables := by
  have steps : ∀ st : Step, st.action.Callable → StepKeeps holds setup st :=
    fun st calls part s found i makes => inserts part s found i (makes.callable calls)
  have scripts := runScript_keeps unrequired fun script known run listed st member =>
    steps st.step (callable script known run listed st member)
  induction reached with
  | fresh w => exact empty
  | aside reached tables ih =>
    rw [tables]
    exact ih
  | step reached depth st registers ih =>
    exact step_keeps (scripts depth) unrequired (steps st registers) _ ih

end Session

end Loadable
