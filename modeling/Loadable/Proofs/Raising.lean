import Loadable.Proofs.Bodies
import Mathlib.Control.Monad.Basic
/-!
What becomes of an error on its way out of the scripts it was raised in. Hooks answer for the mishaps
of their scripts, so what leaves a session's step depends on the innermost hook around the place where
the error arose, and on no other.
-/
namespace Loadable

/-- What is left of an error outside of all the calls that it leaves, innermost first. -/
def Raised.through (raised : Raised) (calls : List Call) : Raised :=
  calls.foldl (fun raised made => made.passes raised) raised

namespace Raised

variable {calls inner outer : List Call} {mishap : Mishap}

theorem through_append (raised : Raised) (inner outer : List Call) :
    raised.through (inner ++ outer) = (raised.through inner).through outer := by
  simp only [through, List.foldl_append]

theorem through_fault (fault : Fault) (calls : List Call) :
    (Raised.fault fault).through calls = .fault fault := by
  induction calls with
  | nil => rfl
  | cons made calls ih => cases made <;> exact ih

theorem through_unhooked (unhooked : ∀ key hook, Call.hook key hook ∉ calls) (raised : Raised) :
    raised.through calls = raised := by
  induction calls with
  | nil => rfl
  | cons made calls ih =>
    have rest := ih fun key hook member => unhooked key hook (List.mem_cons_of_mem made member)
    cases made with
    | hook key hook => exact absurd List.mem_cons_self (unhooked key hook)
    | _ => exact rest

theorem through_stop (stop : mishap.isFailure = false) (calls : List Call) :
    (Raised.mishap mishap).through calls = .mishap mishap := by
  induction calls with
  | nil => rfl
  | cons made calls ih =>
    have passed : made.passes (.mishap mishap) = .mishap mishap := by
      cases made with
      | hook key hook => simp [Call.passes, Store.raisedBy, stop]
      | _ => rfl
    change (made.passes (.mishap mishap)).through calls = _
    rw [passed, ih]

/-- The innermost hook turns a failure into its own, which stays as it is from then on. -/
theorem through_hook (unhooked : ∀ key hook, Call.hook key hook ∉ inner)
    (failure : mishap.isFailure = true) (key : Key) (hook : Hook) (outer : List Call) :
    (Raised.mishap mishap).through (inner ++ .hook key hook :: outer) =
      .fault (.hookFailed key hook.name mishap) := by
  have translated : Store.raisedBy key hook (.mishap mishap) =
      .fault (.hookFailed key hook.name mishap) := by
    simp [Store.raisedBy, failure]
  rw [through_append, through_unhooked unhooked]
  change (Store.raisedBy key hook (.mishap mishap)).through outer = _
  rw [translated, through_fault]

end Raised

namespace Session

/-- A step raises an error at some place, inside the given calls to hooks and sources, innermost first:
it is the step's own, whatever it is that scripts do, or it is that of a step of the script that the
step runs, which the script comes to and does not rescue. -/
inductive Raises (setup : Setup) : (depth : Nat) → Step → World → Raised → List Call → Prop where
  | itself {depth : Nat} {st : Step} {w : World} {raised : Raised}
      (fails : ∀ run, (step run setup st w).1 = .error raised) : Raises setup depth st w raised []
  | inside {depth : Nat} {st inner : Step} {w start first reached : World} {made : Call}
      {script : Text} {past rest : List ScriptStep} {raised : Raised} {calls : List Call}
      (makes : Act.Makes (fun run => step run setup st) w made script start)
      (next : nextRun setup.scripts script start = (.ok (past ++ ⟨inner, false⟩ :: rest), first))
      (reaches : runSteps (step (runScript setup depth) setup) past first = (.ok (), reached))
      (raises : Raises setup depth inner reached raised calls) :
      Raises setup (depth + 1) st w raised (calls ++ [made])

section Steps

variable {take : Step → Act Answer} {past rest : List ScriptStep} {w reached : World}

theorem runSteps_append (reaches : runSteps take past w = (.ok (), reached)) :
    runSteps take (past ++ rest) w = runSteps take rest reached := by
  induction past generalizing w with
  | nil =>
    cases reaches
    rfl
  | cons st past ih =>
    rcases runSteps_cons take st w with ⟨e, goes⟩ | ⟨_, raised, _, stops⟩
    · rw [goes] at reaches
      rw [List.cons_append, goes]
      exact ih reaches
    · rw [stops] at reaches
      cases reaches

/-- A script that fails has come to a step that fails and is not rescued. -/
theorem runSteps_failed {script : List ScriptStep} {raised : Raised}
    (failed : (runSteps take script w).1 = .error raised) :
    ∃ past inner rest reached, script = past ++ ⟨inner, false⟩ :: rest ∧
      runSteps take past w = (.ok (), reached) ∧ (take inner reached).1 = .error raised := by
  induction script generalizing w with
  | nil => cases failed
  | cons st script ih =>
    rcases runSteps_cons take st w with ⟨e, goes⟩ | ⟨fatal, other, ended, stops⟩
    · rw [goes] at failed
      obtain ⟨past, inner, rest, reached, rfl, reaches, raises⟩ := ih failed
      exact ⟨st :: past, inner, rest, reached, rfl, (goes past).trans reaches, raises⟩
    · rw [stops] at failed
      cases failed
      obtain ⟨inner, rescue⟩ := st
      cases fatal
      exact ⟨[], inner, script, w, rfl, rfl, ended⟩

theorem runSteps_raised {inner : Step} {raised : Raised}
    (reaches : runSteps take past w = (.ok (), reached))
    (raises : (take inner reached).1 = .error raised) :
    (runSteps take (past ++ ⟨inner, false⟩ :: rest) w).1 = .error raised := by
  rw [runSteps_append reaches]
  rw [runSteps, Act.bind_apply, Act.attempt]
  cases ended : take inner reached with
  | mk result after =>
    rw [ended] at raises
    cases raises
    rfl

end Steps

section Errors

variable {setup : Setup} {depth : Nat} {st : Step} {w : World} {raised : Raised} {calls : List Call}

theorem step_carries {made : Call} {script : Text} {start : World}
    (makes : Act.Makes (fun run => step run setup st) w made script start) (run : ScriptRunner)
    (failed : (run script start).1 = .error raised) :
    (step run setup st w).1 = .error (made.passes raised) := by
  have carried := (makes.served (step_serves setup st w)).1 run
  rw [failed] at carried
  exact carried

theorem step_failed {run : ScriptRunner} (failed : (step run setup st w).1 = .error raised) :
    (∀ copy, (step copy setup st w).1 = .error raised) ∨
    ∃ made script start inner, Act.Makes (fun run => step run setup st) w made script start ∧
      (run script start).1 = .error inner := by
  cases step_serves setup st w with
  | idle same =>
    refine .inl fun copy => ?_
    have alike : step copy setup st w = step run setup st w := same copy run
    rw [alike, failed]
  | @runs made script start makes ends =>
    cases ran : (run script start).1 with
    | error inner => exact .inr ⟨made, script, start, inner, makes, ran⟩
    | ok =>
      have carried := ends run
      rw [ran] at carried
      obtain ⟨answer, done⟩ := carried
      rw [failed] at done
      cases done

/-- An error leaves a step as it passes through the calls around the place where it arose. -/
theorem Raises.step_eq (raises : Raises setup depth st w raised calls) :
    (step (runScript setup depth) setup st w).1 = .error (raised.through calls) := by
  induction raises with
  | itself fails => exact fails _
  | @inside depth st inner w start first reached made script past rest raised calls makes next
      reaches raises ih =>
    have failed : (runScript setup (depth + 1) script start).1 = .error (raised.through calls) := by
      rw [runScript, Act.bind_apply, next]
      exact runSteps_raised reaches ih
    rw [step_carries makes _ failed, Raised.through_append]
    rfl

theorem Raises.first {made : Call} {script : Text} {start : World} {inner : Step}
    {rest : List ScriptStep} (makes : Act.Makes (fun run => step run setup st) w made script start)
    (listed : ((setup.scripts.find? (·.1 = script)).bind (·.2[w.started.count script]?)).getD [] =
      [] ++ ⟨inner, false⟩ :: rest)
    (raises : Raises setup depth inner { start with started := script :: w.started } raised calls) :
    Raises setup (depth + 1) st w raised (calls ++ [made]) :=
  .inside makes (makes.next listed) rfl raises

theorem exists_raises {other : Raised}
    (failed : (step (runScript setup depth) setup st w).1 = .error other) :
    ∃ raised calls, Raises setup depth st w raised calls := by
  induction depth generalizing st w other with
  | zero =>
    rcases step_failed failed with fails | ⟨made, script, start, inner, makes, ran⟩
    · exact ⟨other, [], .itself fails⟩
    · rw [runScript, Act.bind_apply, nextRun_eq] at ran
      cases ran
  | succ depth ih =>
    rcases step_failed failed with fails | ⟨made, script, start, inner, makes, ran⟩
    · exact ⟨other, [], .itself fails⟩
    · have next := nextRun_eq setup.scripts script start
      rw [runScript, Act.bind_apply, next] at ran
      obtain ⟨past, inner, rest, reached, split, reaches, ended⟩ := runSteps_failed ran
      rw [split] at next
      obtain ⟨raised, calls, raises⟩ := ih ended
      exact ⟨raised, calls ++ [made], .inside makes next reaches raises⟩

end Errors

/-- An error that leaves a step taken from outside all scripts was raised somewhere, and is the one
raised there or a hook's failure. A fault leaves as it is, and so does everything that is raised
outside of all hooks; a mishap inside of hooks leaves as the failure of the innermost one, with the
mishap as its cause, unless it is a request to stop, which leaves as it is. -/
theorem raised_translated_once (setup : Setup) (st : Step) (w : World) :
    (∀ other, (perform setup st w).1 = .error other →
      ∃ raised calls, Raises setup (depth setup.scripts) st w raised calls) ∧
    (∀ raised calls, Raises setup (depth setup.scripts) st w raised calls →
      (∀ fault, raised = .fault fault → (perform setup st w).1 = .error (.fault fault)) ∧
      ((∀ key hook, Call.hook key hook ∉ calls) → (perform setup st w).1 = .error raised) ∧
      (∀ mishap inner key hook outer, raised = .mishap mishap →
        calls = inner ++ .hook key hook :: outer → (∀ key hook, Call.hook key hook ∉ inner) →
        mishap.isFailure = true →
        (perform setup st w).1 = .error (.fault (.hookFailed key hook.name mishap))) ∧
      (∀ mishap, raised = .mishap mishap → mishap.isFailure = false →
        (perform setup st w).1 = .error (.mishap mishap))) := by
  refine ⟨fun other failed => exists_raises failed, fun raised calls raises => ?_⟩
  have left : (perform setup st w).1 = .error (raised.through calls) := raises.step_eq
  rw [left]
  refine ⟨?_, ?_, ?_, ?_⟩
  · rintro fault rfl
    rw [Raised.through_fault]
  · intro unhooked
    rw [Raised.through_unhooked unhooked]
  · rintro mishap inner key hook outer rfl rfl unhooked failure
    rw [Raised.through_hook unhooked failure]
  · rintro mishap rfl stop
    rw [Raised.through_stop stop]

/-- A hook loads a hook that loads a source, whose script raises something. -/
def crying (kind : Outcry) : Setup where
  store := ⟨.posix, ("/" : Text), .memory⟩
  scripts :=
    [(("outer" : Text), [[⟨⟨.whole, .load (.text ("b" : Text))⟩, false⟩]]),
      (("inner" : Text), [[⟨⟨.whole, .load (.text ("c" : Text))⟩, false⟩]]),
      (("cry" : Text), [[⟨⟨.whole, .raise (.mishap (.outcry kind ("bye" : Text)))⟩, false⟩]])]

def outerHook : Hook where
  script := ("outer" : Text)

def innerHook : Hook where
  script := ("inner" : Text)

def outerCall : Call :=
  .hook (Bytes.ofString "/a") outerHook

def innerCall : Call :=
  .hook (Bytes.ofString "/b") innerHook

def criersCall : Call :=
  .source ("/c" : Text) (Bytes.ofString "@cry")

def registered : World where
  tables :=
    { hooks := ⟨[(Bytes.ofString "/a", outerHook), (Bytes.ofString "/b", innerHook)]⟩
      sources := ⟨[(Bytes.ofString "/c", Bytes.ofString "@cry")]⟩ }

def loadOuter : Step :=
  ⟨.whole, .load (.text ("a" : Text))⟩

theorem crying_makes (kind : Outcry) {path script : Text} {key : Key} {made : Call} {v : World}
    (named : made.script? = some script)
    (found : (Store.target ⟨.posix, ("/" : Text), .memory⟩ (.text path) registered).1 = .ok (key, made))
    (same : v.stored = registered.stored) :
    ∃ start, Act.Makes (fun run => step run (crying kind) ⟨.whole, .load (.text path)⟩) v made script
      start :=
  step_load_makes named found same

theorem crying_raises (kind : Outcry) :
    Raises (crying kind) 3 loadOuter registered (.mishap (.outcry kind ("bye" : Text)))
      [criersCall, innerCall, outerCall] := by
  let s : Store := ⟨.posix, ("/" : Text), .memory⟩
  have atA : (s.target (.text ("a" : Text)) registered).1 = .ok (Bytes.ofString "/a", outerCall) := by
    decide +kernel
  have atB : (s.target (.text ("b" : Text)) registered).1 = .ok (Bytes.ofString "/b", innerCall) := by
    decide +kernel
  have atC : (s.target (.text ("c" : Text)) registered).1 = .ok (Bytes.ofString "/c", criersCall) := by
    decide +kernel
  have named : criersCall.script? = some ("cry" : Text) := by decide
  obtain ⟨start, outer⟩ := crying_makes kind rfl atA rfl
  obtain ⟨middle, inner⟩ :=
    crying_makes kind (v := { start with started := [outerHook.script] }) rfl atB outer.stored
  obtain ⟨last, source⟩ :=
    crying_makes kind (v := { middle with started := [innerHook.script, outerHook.script] }) named atC
      (inner.stored.trans outer.stored)
  exact .first outer rfl (.first inner rfl (.first source rfl (.itself fun run => rfl)))

/-- The innermost hook answers for what a source in it raises, and the hook around it passes its
failure on. -/
theorem inner_hook_fails :
    let mishap : Mishap := .outcry .runtime ("bye" : Text)
    Raises (crying .runtime) 3 loadOuter registered (.mishap mishap)
        [criersCall, innerCall, outerCall] ∧
      (perform (crying .runtime) loadOuter registered).1 =
        .error (.fault (.hookFailed (Bytes.ofString "/b") innerHook.name mishap)) := by
  intro mishap
  have raises := crying_raises .runtime
  obtain ⟨_, _, failed, _⟩ :=
    (raised_translated_once (crying .runtime) loadOuter registered).2 _ _ raises
  have unhooked : ∀ key hook, Call.hook key hook ∉ [criersCall] := by simp [criersCall]
  exact ⟨raises, failed mishap [criersCall] _ innerHook [outerCall] rfl rfl unhooked rfl⟩

/-- But no hook answers for a request to stop. -/
theorem exit_leaves_hook :
    ¬∀ mishap inner key hook outer,
      Raises (crying .exit) 3 loadOuter registered (.mishap mishap) (inner ++ .hook key hook :: outer) →
      (∀ key hook, Call.hook key hook ∉ inner) →
      (perform (crying .exit) loadOuter registered).1 =
        .error (.fault (.hookFailed key hook.name mishap)) := by
  intro every
  have unhooked : ∀ key hook, Call.hook key hook ∉ [criersCall] := by simp [criersCall]
  have failed := every _ [criersCall] _ innerHook [outerCall] (crying_raises .exit) unhooked
  have stopped : (perform (crying .exit) loadOuter registered).1 =
      .error (.mishap (.outcry .exit ("bye" : Text))) := by
    decide +kernel
  rw [stopped] at failed
  cases failed

end Session

end Loadable
