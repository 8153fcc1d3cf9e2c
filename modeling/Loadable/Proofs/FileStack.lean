import Loadable.Proofs.Raising
/-!
The files being evaluated. Wherever a session is, also in the middle of scripts inside scripts, they
are those of the calls to sources that have begun there and not ended, and no others: each one is
taken away again when its source ends, however that ends.
-/
namespace Loadable

theorem Evolves.files {w after : World} (evolves : Evolves w after) : after.files = w.files := by
  induction evolves with
  | aside _ _ files _ _ => exact files
  | host _ => rfl
  | insert _ => rfl
  | trans _ _ first rest => exact rest.trans first
  | source filename _ _ _ body => exact congrArg List.tail body
  | hook _ _ _ _ body => exact body
  | load _ _ _ body => exact body
  | require _ _ _ body => exact body
  | requireFailed _ _ _ _ body => exact body
  | requireAgain _ _ => rfl

/-- The files evaluated by calls that are in progress, innermost first as the calls are. -/
def Call.filesOf (calls : List Call) : List Text :=
  calls.flatMap Call.files

namespace Session

open Act (Makes)

/-- In the course of a step a world is come through, inside the given calls to hooks and sources,
innermost first: before the step or after it, where the script of the call that it makes starts or has
ended, or in the course of a step that this script comes to. -/
inductive Passes (setup : Setup) : (depth : Nat) → Step → World → List Call → World → Prop where
  | before {depth : Nat} {st : Step} {w : World} : Passes setup depth st w [] w
  | after {depth : Nat} {st : Step} {w : World} :
      Passes setup depth st w [] (step (runScript setup depth) setup st w).2
  | enters {depth : Nat} {st : Step} {w start : World} {made : Call} {script : Text}
      (makes : Makes (fun run => step run setup st) w made script start) :
      Passes setup depth st w [made] start
  | leaves {depth : Nat} {st : Step} {w start : World} {made : Call} {script : Text}
      (makes : Makes (fun run => step run setup st) w made script start) :
      Passes setup depth st w [made] (runScript setup depth script start).2
  | inside {depth : Nat} {st : Step} {w start first reached v : World} {made : Call} {script : Text}
      {past rest : List ScriptStep} {inner : ScriptStep} {calls : List Call}
      (makes : Makes (fun run => step run setup st) w made script start)
      (next : nextRun setup.scripts script start = (.ok (past ++ inner :: rest), first))
      (reaches : runSteps (step (runScript setup depth) setup) past first = (.ok (), reached))
      (passes : Passes setup depth inner.step reached calls v) :
      Passes setup (depth + 1) st w (calls ++ [made]) v

variable {setup : Setup}

/-- No step leaves a file behind, whether it fails or not. -/
theorem step_files (depth : Nat) (st : Step) (w : World) :
    (step (runScript setup depth) setup st w).2.files = w.files :=
  (step_evolving (runScript_evolving setup depth) setup st w).files

theorem Passes.files {depth : Nat} {st : Step} {w v : World} {calls : List Call}
    (passes : Passes setup depth st w calls v) : v.files = Call.filesOf calls ++ w.files := by
  induction passes with
  | before => rfl
  | after => exact step_files _ _ _
  | @enters depth st w start made script makes =>
    rw [(makes.served (step_serves setup st w)).2]
    simp [Call.filesOf]
  | @leaves depth st w start made script makes =>
    have same := (runScript_evolving setup depth script start).files
    rw [same, (makes.served (step_serves setup st w)).2]
    simp [Call.filesOf]
  | @inside depth st w start first reached v made script past rest inner calls makes next reaches
      passes ih =>
    rw [ih, ((nextRun_evolves next).trans (runSteps_evolves reaches)).files,
      (makes.served (step_serves setup st w)).2]
    simp [Call.filesOf]

theorem Passes.first {depth : Nat} {st : Step} {w start v : World} {made : Call} {script : Text}
    {inner : ScriptStep} {rest : List ScriptStep} {calls : List Call}
    (makes : Makes (fun run => step run setup st) w made script start)
    (listed : ((setup.scripts.find? (·.1 = script)).bind (·.2[w.started.count script]?)).getD [] =
      [] ++ inner :: rest)
    (passes : Passes setup depth inner.step { start with started := script :: w.started } calls v) :
    Passes setup (depth + 1) st w (calls ++ [made]) v :=
  .inside makes (makes.next listed) rfl passes

theorem run_files (steps : List Step) (w : World) : (Session.run setup steps w).2.files = w.files :=
  (run_evolves setup steps w).files

/-- At every point of a session the files being evaluated are those of the sources in progress there,
innermost first, on top of those at the start, and the current file is the first of them. A session
and each of its steps end with the files that they started with. What runs no call's script passes
through no world in which anything could look at them. -/
theorem files_bracketed (setup : Setup) (steps : List Step) (w : World) :
    (Session.run setup steps w).2.files = w.files ∧
      (∀ before st rest, steps = before ++ st :: rest →
        let start := { (Session.run setup before w).2 with events := [], log := [] }
        (perform setup st start).2.files = w.files ∧
          ∀ calls v, Passes setup (depth setup.scripts) st start calls v →
            v.files = Call.filesOf calls ++ w.files ∧
              Interpreter.currentFile? v = (.ok (Call.filesOf calls ++ w.files).head?, v)) ∧
      ∀ st v, (∀ run copy, step run setup st v = step copy setup st v) ∨
        ∃ made script start, Makes (fun run => step run setup st) v made script start := by
  refine ⟨run_files steps w, ?_, ?_⟩
  · rintro before st rest rfl
    intro start
    have unchanged : start.files = w.files := run_files before w
    refine ⟨(step_files _ st start).trans unchanged, fun calls v passes => ?_⟩
    have stack : v.files = Call.filesOf calls ++ w.files := by rw [passes.files, unchanged]
    rw [← stack]
    exact ⟨rfl, rfl⟩
  · intro st v
    cases step_serves setup st v with
    | idle same => exact .inl same
    | runs makes => exact .inr ⟨_, _, _, makes⟩

/-- A source loads a hook, which evaluates another source. While that one runs its script its file is
the current one, and the hook has left none. -/
theorem current_in_source :
    let hook : Hook := { script := ("hook" : Text) }
    let setup : Setup :=
      { store := ⟨.posix, ("/" : Text), .memory⟩
        scripts :=
          [(("outer" : Text), [[⟨⟨.whole, .load (.text ("a" : Text))⟩, false⟩]]),
            (("hook" : Text), [[⟨⟨.whole, .evaluate (.bytes (Bytes.ofString "@deep"))
              ("deep" : Text)⟩, false⟩]])] }
    let st : Step := ⟨.whole, .evaluate (.bytes (Bytes.ofString "@outer")) ("main" : Text)⟩
    let w : World := { tables := { hooks := ⟨[(Bytes.ofString "/a", hook)]⟩ } }
    let calls : List Call := [.source ("deep" : Text) (Bytes.ofString "@deep"),
      .hook (Bytes.ofString "/a") hook, .source ("main" : Text) (Bytes.ofString "@outer")]
    ∃ inside, Passes setup (depth setup.scripts) st w calls inside ∧
      inside.files = [("deep" : Text), ("main" : Text)] ∧
      Interpreter.currentFile? inside = (.ok (some ("deep" : Text)), inside) := by
  intro hook setup st w calls
  have outer : scriptOf? (Bytes.ofString "@outer") = some ("outer" : Text) := by decide
  have deep : scriptOf? (Bytes.ofString "@deep") = some ("deep" : Text) := by decide
  have target : (setup.store.target (.text ("a" : Text)) w).1 =
      .ok (Bytes.ofString "/a", .hook (Bytes.ofString "/a") hook) := by decide +kernel
  let begun : World :=
    { World.entered { w with files := [("main" : Text)] }
        (.evaluated ("main" : Text) (Bytes.ofString "@outer")) with started := [("outer" : Text)] }
  have main : Makes (fun run => step run setup st) w
      (.source ("main" : Text) (Bytes.ofString "@outer")) ("outer" : Text) _ :=
    step_evaluate_makes outer ("main" : Text) w
  obtain ⟨start, loads⟩ := step_load_makes (v := begun) rfl target rfl
  have passes : Passes setup (depth setup.scripts) st w calls _ :=
    .first main rfl (.first loads rfl (.enters (step_evaluate_makes deep ("deep" : Text) _)))
  obtain ⟨_, points, _⟩ := files_bracketed setup [st] w
  obtain ⟨stack, current⟩ := (points [] st [] rfl).2 _ _ passes
  exact ⟨_, passes, stack, current⟩

end Session

end Loadable
