import Loadable.Proofs.Evolution
/-!
Scripts nest no deeper than there are runs of them: allowing more depth than that changes nothing.
-/
namespace Loadable

theorem Evolves.started {w after : World} (evolves : Evolves w after) :
    w.started <:+ after.started := by
  induction evolves with
  | aside tables host files history started => exact started
  | host changed => exact List.suffix_rfl
  | insert inserted => exact List.suffix_rfl
  | trans first rest left right => exact left.trans right
  | source filename data ended body ih => exact ih
  | hook key hook ended body ih => exact ih
  | load key ended body ih => exact ih
  | require feature unknown body ih => exact ih
  | requireFailed feature raised unknown body ih => exact ih
  | requireAgain feature known => exact List.suffix_rfl

/-- An upper bound on the script runs with steps that are still to come. -/
def runsLeft : Scripts → (started : List Text) → Nat
  | [], _ => 0
  | (script, runs) :: rest, started =>
    (runs.length - started.count script) + runsLeft rest started

section Runs

variable {scripts : Scripts} {before after : List Text}

theorem runsLeft_le (later : before <:+ after) :
    runsLeft scripts after ≤ runsLeft scripts before := by
  induction scripts with
  | nil => exact Nat.le_refl _
  | cons first rest ih =>
    have counted := later.sublist.count_le first.1
    simp only [runsLeft]
    omega

theorem runsLeft_lt {script : Text} {runs : List (List ScriptStep)}
    (member : (script, runs) ∈ scripts) (pending : before.count script < runs.length) :
    runsLeft scripts (script :: before) < runsLeft scripts before := by
  induction scripts with
  | nil => cases member
  | cons first rest ih =>
    have others : runsLeft rest (script :: before) ≤ runsLeft rest before :=
      runsLeft_le (List.suffix_cons script before)
    simp only [runsLeft]
    rcases List.mem_cons.1 member with rfl | member
    · simp only [List.count_cons_self]
      omega
    · have fewer := ih member
      have counted := (List.sublist_cons_self script before).count_le first.1
      omega

theorem runsLeft_nil (scripts : Scripts) : runsLeft scripts [] = Session.depth scripts := by
  induction scripts with
  | nil => rfl
  | cons first rest ih =>
    rw [runsLeft, ih]
    simp [Session.depth]

end Runs

namespace Act

variable {α β : Type} {scripts : Scripts} {limit : Nat}

/-- The acts do the same as long as at most so many script runs are left. -/
def SameWithin (scripts : Scripts) (limit : Nat) (x y : Act α) : Prop :=
  ∀ w, runsLeft scripts w.started ≤ limit → x w = y w

namespace SameWithin

theorem refl (x : Act α) : SameWithin scripts limit x x := fun _ _ => rfl

theorem bind {x y : Act α} {f g : α → Act β} (evolving : Evolving x)
    (first : SameWithin scripts limit x y) (rest : ∀ a, SameWithin scripts limit (f a) (g a)) :
    SameWithin scripts limit (x >>= f) (y >>= g) := by
  intro w left
  have later := (evolving w).started
  rw [bind_apply, bind_apply, ← first w left]
  cases run : x w with
  | mk result after =>
    rw [run] at later
    cases result with
    | error r => rfl
    | ok a => exact rest a after (Nat.le_trans (runsLeft_le later) left)

theorem after {x : Act α} {f g : α → Act β} (evolving : Evolving x)
    (rest : ∀ a, SameWithin scripts limit (f a) (g a)) :
    SameWithin scripts limit (x >>= f) (x >>= g) :=
  .bind evolving (.refl x) rest

theorem attempt {x y : Act α} (same : SameWithin scripts limit x y) :
    SameWithin scripts limit (Act.attempt x) (Act.attempt y) := by
  intro w left
  simp only [Act.attempt, same w left]

theorem before {x y : Act α} (same : SameWithin scripts limit x y) (f : α → Act β) :
    SameWithin scripts limit (x >>= f) (y >>= f) := by
  intro w left
  rw [bind_apply, bind_apply, same w left]

theorem recorded {x y : Act α} (same : SameWithin scripts limit x y) (made : Call)
    (answer : α → Answer) :
    SameWithin scripts limit (Act.recorded made answer x) (Act.recorded made answer y) := by
  intro w left
  rw [recorded_apply, recorded_apply, same w.forCall left]

theorem asFile {x y : Act α} (same : SameWithin scripts limit x y) (filename : Text) :
    SameWithin scripts limit (Act.asFile filename x) (Act.asFile filename y) := by
  intro w left
  rw [asFile_apply, asFile_apply, same { w with files := filename :: w.files } left]

end SameWithin

end Act

open Act (SameWithin)

section Runners

variable {scripts : Scripts} {limit : Nat} {run deeper : ScriptRunner}

theorem runSource_same (same : ∀ script, SameWithin scripts limit (run script) (deeper script))
    (source : Bytes) (filename : Text) :
    SameWithin scripts limit (runSource run source filename) (runSource deeper source filename) := by
  refine .after (.note _) fun _ => ?_
  cases scriptOf? source with
  | some script => exact same script
  | none => exact .refl _

variable (same : ∀ script, SameWithin scripts limit (run script) (deeper script))

include same

theorem evaluate_same (source : Bytes) (filename : Text) :
    SameWithin scripts limit (evaluate run source filename) (evaluate deeper source filename) :=
  .before (.asFile (.recorded (runSource_same same source filename) _ _) filename) _

theorem callHook_same (key : Key) (hook : Hook) :
    SameWithin scripts limit (callHook run key hook) (callHook deeper key hook) :=
  .recorded (.after (.note _) fun _ => same hook.script) _ _

namespace Store

theorem runHook_same (s : Store) (key : Key) (hook : Hook) :
    SameWithin scripts limit (s.runHook run key hook) (s.runHook deeper key hook) :=
  .after (Act.Quiet.log _ _ _ _).evolving fun _ => .before (.attempt (callHook_same same key hook)) _

theorem execute_same (s : Store) (key : Key) :
    SameWithin scripts limit (s.execute run key) (s.execute deeper key) := by
  refine .after Act.Quiet.world.evolving fun w => ?_
  cases w.tables.hooks.get? key with
  | some hook => exact runHook_same same s key hook
  | none =>
    exact .after (s.readKey_looks key).evolving fun source =>
      .before (evaluate_same same source _) _

theorem requireKey_same (s : Store) (key : Key) :
    SameWithin scripts limit (s.requireKey run key) (s.requireKey deeper key) := by
  refine .after (s.featureKey_looks key).evolving fun feature => .recorded ?_ _ _
  refine .after Act.Quiet.world.evolving fun w => ?_
  cases w.tables.features.isLoaded feature with
  | true => exact .refl _
  | false => exact .before (execute_same same s key) _

theorem loadKey_same (s : Store) (key : Key) :
    SameWithin scripts limit (s.loadKey run key) (s.loadKey deeper key) :=
  .recorded (.before (execute_same same s key) _) _ _

theorem require_same (s : Store) (path : GivenPath) :
    SameWithin scripts limit (s.require run path) (s.require deeper path) := by
  unfold require
  cases s.backend with
  | searchPath roots =>
    refine .after (s.registeredIn_quiet path roots).evolving fun found => ?_
    cases found with
    | some found => exact .refl _
    | none =>
      exact .after (s.findOrRaise_looks roots path).evolving fun found =>
        requireKey_same same _ _
  | _ => exact .after (s.resolve_looks path).evolving fun key => requireKey_same same s key

theorem load_same (s : Store) (path : GivenPath) :
    SameWithin scripts limit (s.load run path) (s.load deeper path) := by
  unfold load
  cases s.backend with
  | searchPath roots =>
    exact .after (s.findOrRaise_looks roots path).evolving fun found => loadKey_same same _ _
  | _ => exact .after (s.resolve_looks path).evolving fun key => loadKey_same same s key

end Store

namespace Interpreter

theorem requireName_same (s : Store) (name : Text) :
    SameWithin scripts limit (requireName run s name) (requireName deeper s name) := by
  refine .after (anyRequired_quiet s _).evolving fun required => ?_
  cases required with
  | true => exact .refl _
  | false =>
    refine .after (firstFile_looks s _).evolving fun found => ?_
    cases found with
    | some candidate => exact .before (Store.require_same same s _) _
    | none => exact .refl _

theorem require_same (s : Store) (name : GivenPath) :
    SameWithin scripts limit (require run s name) (require deeper s name) :=
  .after (Act.Quiet.ofMishap _).evolving fun _ => requireName_same same s _

theorem load_same (s : Store) (name : GivenPath) :
    SameWithin scripts limit (load run s name) (load deeper s name) :=
  .before (Store.load_same same s name) _

theorem requireRelative_same (s : Store) (name : GivenPath) :
    SameWithin scripts limit (requireRelative run s name) (requireRelative deeper s name) :=
  .after (Act.Quiet.ofMishap _).evolving fun _ => .after currentFile_quiet.evolving fun _ =>
    requireName_same same s _

end Interpreter

namespace Session

theorem act_same (base : Place) (s : Store) (action : Action) :
    SameWithin scripts limit (act run base s action) (act deeper base s action) := by
  cases action with
  | require path => exact .before (s.require_same same path) _
  | load path => exact .before (s.load_same same path) _
  | requireName name => exact .before (Interpreter.require_same same s name) _
  | loadName name => exact .before (Interpreter.load_same same s name) _
  | requireRelative name => exact .before (Interpreter.requireRelative_same same s name) _
  | evaluate source filename =>
    exact .after (Act.Quiet.ofMishap _).evolving fun data =>
      .before (evaluate_same same data filename) _
  | _ => exact .refl _

theorem step_same (setup : Setup) (st : Step) :
    SameWithin scripts limit (step run setup st) (step deeper setup st) := by
  unfold step
  cases st.action.isOfStore with
  | true => exact .after (Act.Quiet.ofMishap _).evolving fun part => act_same same _ part _
  | false => exact act_same same _ _ _

end Session

end Runners

namespace Session

theorem runSteps_same {scripts : Scripts} {limit : Nat} {perform deeper : Step → Act Answer}
    (evolving : ∀ st, Act.Evolving (perform st))
    (same : ∀ st, SameWithin scripts limit (perform st) (deeper st)) (script : List ScriptStep) :
    SameWithin scripts limit (runSteps perform script) (runSteps deeper script) := by
  induction script with
  | nil => exact .refl _
  | cons st rest ih =>
    refine .bind (evolving st.step).attempt (.attempt (same st.step)) fun result => ?_
    cases result with
    | ok answer => exact .after (.note _) fun _ => ih
    | error raised =>
      simp only
      split
      · exact .after (.note _) fun _ => ih
      · exact .refl _

theorem nextRun_left {scripts : Scripts} {script : Text} {w after : World} {first : ScriptStep}
    {rest : List ScriptStep} (next : nextRun scripts script w = (.ok (first :: rest), after)) :
    runsLeft scripts after.started < runsLeft scripts w.started := by
  rw [nextRun_eq] at next
  cases known : scripts.find? (·.1 = script) with
  | none => simp [known] at next
  | some entry =>
    obtain ⟨name, runs⟩ := entry
    have named : name = script := by simpa using List.find?_some known
    have member := List.mem_of_find?_eq_some known
    subst named
    simp only [known, Option.bind_some, Prod.mk.injEq, Except.ok.injEq] at next
    obtain ⟨steps, rfl⟩ := next
    refine runsLeft_lt member ?_
    rcases Nat.lt_or_ge (w.started.count name) runs.length with pending | exhausted
    · exact pending
    · rw [List.getElem?_eq_none exhausted] at steps
      cases steps

/-- A script does the same at any greater depth, when no more runs are left than the depth. -/
theorem runScript_same (setup : Setup) (depth more : Nat) (script : Text) :
    SameWithin setup.scripts depth (runScript setup depth script)
      (runScript setup (depth + more) script) := by
  induction depth generalizing script with
  | zero =>
    intro w left
    cases more with
    | zero => rfl
    | succ more =>
      simp only [runScript, Act.bind_apply]
      cases next : nextRun setup.scripts script w with
      | mk result after =>
        match result with
        | .error raised => rfl
        | .ok [] => rfl
        | .ok (first :: rest) =>
          have fewer := nextRun_left next
          omega
  | succ depth ih =>
    intro w left
    rw [Nat.succ_add_eq_add_succ, Nat.add_succ]
    simp only [runScript, Act.bind_apply]
    cases next : nextRun setup.scripts script w with
    | mk result after =>
      match result with
      | .error raised => rfl
      | .ok [] => rfl
      | .ok (first :: rest) =>
        have fewer := nextRun_left next
        have evolving := step_evolving (runScript_evolving setup depth) setup
        exact runSteps_same evolving (step_same ih setup) _ after (by omega)

/-- A session does not depend on how deep its scripts may nest, when they may nest as deep as there
are runs. -/
theorem perform_deeper (setup : Setup) (more : Nat) (st : Step) :
    step (runScript setup (depth setup.scripts + more)) setup st = perform setup st := by
  funext w
  refine (step_same (runScript_same setup _ more) setup st w ?_).symm
  calc runsLeft setup.scripts w.started
    _ ≤ runsLeft setup.scripts [] := runsLeft_le (List.nil_suffix)
    _ = depth setup.scripts := runsLeft_nil setup.scripts

end Session

end Loadable
