import Loadable.Proofs.Agreement
import Loadable.Proofs.Reachable
/-!
What is asked of a store in a run, and what it answers: a trace, with the actions of the scripts that
are run standing inside the action that runs them. Every session has one. Where some actions of a
trace are left out, another store may give the same answers to the rest: this comes down to each
action by itself.
-/
namespace Loadable

/-- What is asked, what comes back, and what is seen of the host then. An action that runs a script
has the actions of that script inside it, and how the script ends. -/
inductive Trace (σ : Type) where
  | done
  | made (action : Action) (answer : Except Raised Answer) (seen : σ) (rest : Trace σ)
  | ran (action : Action) (within : Trace σ) (ended : Except Raised Unit)
      (answer : Except Raised Answer) (seen : σ) (rest : Trace σ)

def Action.IsDirect : Action → Prop
  | requireName _ | loadName _ | requireRelative _ | evaluate _ _ | preloadSource _ _
  | preloadHook _ _ => False
  | _ => True

def Setup.IsDirect (setup : Setup) : Prop :=
  ∀ script ∈ setup.scripts, ∀ steps ∈ script.2, ∀ st ∈ steps,
    st.step.part = .whole ∧ st.step.action.IsDirect

namespace Trace

variable {σ : Type}

def append : Trace σ → Trace σ → Trace σ
  | done, later => later
  | made action answer seen rest, later => made action answer seen (rest.append later)
  | ran action within ended answer seen rest, later =>
    ran action within ended answer seen (rest.append later)

/-- The actions that are kept. When one is left out that runs a script, the actions of the script are
kept or left out in its place. -/
def only (keep : Action → Bool) : Trace σ → Trace σ
  | done => done
  | made action answer seen rest =>
    if keep action then made action answer seen (rest.only keep) else rest.only keep
  | ran action within ended answer seen rest =>
    if keep action then ran action (within.only keep) ended answer seen (rest.only keep)
    else (within.only keep).append (rest.only keep)

def answers : Trace σ → List (Except Raised Answer)
  | done => []
  | made _ answer _ rest => answer :: rest.answers
  | ran _ _ _ answer _ rest => answer :: rest.answers

theorem answers_append (first second : Trace σ) :
    (first.append second).answers = first.answers ++ second.answers := by
  induction first with
  | done => rfl
  | made action answer seen rest ih => simp only [append, answers, ih, List.cons_append]
  | ran action within ended answer seen rest _ ih =>
    simp only [append, answers, ih, List.cons_append]

end Trace

def Act.landing {α : Type} (ended : Except Raised α) (after : World) : Act α :=
  fun _ => (ended, after)

namespace Session

def RunsScript (base : Place) (s : Store) (action : Action) (w : World) : Prop :=
  ∃ ended other : Except Raised Unit,
    (act (fun _ => Act.of ended) base s action w).1 ≠ (act (fun _ => Act.of other) base s action w).1

theorem not_runsScript {base : Place} {s : Store} {action : Action} {w : World}
    (same : ∀ run copy, (act run base s action w).1 = (act copy base s action w).1) :
    ¬RunsScript base s action w := by
  rintro ⟨ended, other, differ⟩
  exact differ (same _ _)

/-- From what the first world stores, the trace leads to what the second one stores. The actions that
are taken in it are all permitted. -/
inductive Happens {σ : Type} (base : Place) (s : Store) (see : Host → σ)
    (permits : Action → Except Raised Answer → World → Prop) : Trace σ → World → World → Prop where
  | done {w after : World} (same : after.stored = w.stored) : Happens base s see permits .done w after
  | made {w before middle after : World} {action : Action} {answer : Except Raised Answer}
      {rest : Trace σ} (same : before.stored = w.stored) (permitted : permits action answer before)
      (idle : ¬RunsScript base s action before)
      (acts : act (fun _ => pure ()) base s action before = (answer, middle))
      (later : Happens base s see permits rest middle after) :
      Happens base s see permits (.made action answer (see middle.host) rest) w after
  | ran {w before finish middle after : World} {action : Action} {within rest : Trace σ}
      {ended : Except Raised Unit} {answer : Except Raised Answer}
      (same : before.stored = w.stored) (permitted : permits action answer before)
      (runs : RunsScript base s action before) (body : Happens base s see permits within before finish)
      (acts : act (fun _ => Act.landing ended finish) base s action before = (answer, middle))
      (later : Happens base s see permits rest middle after) :
      Happens base s see permits (.ran action within ended answer (see middle.host) rest) w after

namespace Happens

variable {σ : Type} {base : Place} {s : Store} {see : Host → σ}
  {permits : Action → Except Raised Answer → World → Prop} {first second : Trace σ}
  {w v middle after : World}

theorem start (happens : Happens base s see permits first w after) (same : v.stored = w.stored) :
    Happens base s see permits first v after := by
  cases happens with
  | done left => exact .done (left.trans same.symm)
  | made before permitted idle acts later =>
    exact .made (before.trans same.symm) permitted idle acts later
  | ran before permitted runs body acts later =>
    exact .ran (before.trans same.symm) permitted runs body acts later

theorem next {action : Action} {answer : Except Raised Answer} {seen : σ}
    (same : ∀ run copy, act run base s action = act copy base s action)
    (permitted : permits action answer w)
    (answered : (act (fun _ => pure ()) base s action w).1 = answer)
    (sight : see (act (fun _ => pure ()) base s action w).2.host = seen)
    (later : Happens base s see permits first (act (fun _ => pure ()) base s action w).2 after) :
    Happens base s see permits (.made action answer seen first) w after := by
  subst sight
  exact .made rfl permitted (not_runsScript fun run copy => by rw [same run copy])
    (Prod.ext answered rfl) later

theorem append (left : Happens base s see permits first w middle)
    (right : Happens base s see permits second middle after) :
    Happens base s see permits (first.append second) w after := by
  induction left with
  | done same => exact right.start same.symm
  | made same permitted idle acts later ih => exact .made same permitted idle acts (ih right)
  | ran same permitted runs body acts later inside ih =>
    exact .ran same permitted runs body acts (ih right)

end Happens

/-- What it takes for one store to give the answers of another one when only some actions reach it.
Those that do agree as long as the scripts do that they run, and the others leave what is stored so
related, apart from what their scripts do. -/
structure Shadows {σ : Type} (base : Place) (s shadow : Store) (see : Host → σ)
    (permits : Action → Except Raised Answer → World → Prop) (keep : Action → Bool)
    (related : Stored → Stored → Prop) : Prop where
  sees : ∀ {st other}, related st other → see st.host = see other.host
  kept : ∀ {action}, keep action = true → ∀ run copy : ScriptRunner,
    (∀ script, Act.Agree related (run script) (copy script)) →
      Act.Agree related (act run base s action) (act copy base shadow action)
  dropped : ∀ {action answer w}, keep action = false → permits action answer w →
    Act.Changes (fun ended before after =>
      ended = answer → ∀ {other}, related before other → related after other)
      (fun run => act run base s action) w

namespace Shadows

variable {σ : Type} {base : Place} {s shadow : Store} {see : Host → σ}
  {permits : Action → Except Raised Answer → World → Prop} {keep : Action → Bool}
  {related : Stored → Stored → Prop} {action : Action} {answer : Except Raised Answer}
  {trace : Trace σ} {w v middle after : World}

theorem runsScript_iff (shadows : Shadows base s shadow see permits keep related)
    (keeps : keep action = true) (start : related w.stored v.stored) :
    RunsScript base shadow action v ↔ RunsScript base s action w := by
  have same : ∀ ended : Except Raised Unit, (act (fun _ => Act.of ended) base s action w).1 =
      (act (fun _ => Act.of ended) base shadow action v).1 := by
    intro ended
    exact (shadows.kept keeps (fun _ => Act.of ended) (fun _ => Act.of ended)
      (fun _ => .of ended) w v start).1
  constructor
  · rintro ⟨ended, other, differ⟩
    exact ⟨ended, other, by rwa [same, same]⟩
  · rintro ⟨ended, other, differ⟩
    exact ⟨ended, other, by rwa [same, same] at differ⟩

theorem kept_step (shadows : Shadows base s shadow see permits keep related)
    (keeps : keep action = true) (run copy : ScriptRunner)
    (agree : ∀ script, Act.Agree related (run script) (copy script))
    (acts : act run base s action w = (answer, middle)) (start : related w.stored v.stored) :
    ∃ last, act copy base shadow action v = (answer, last) ∧ see middle.host = see last.host ∧
      related middle.stored last.stored := by
  have alike := shadows.kept keeps run copy agree w v start
  cases shown : act copy base shadow action v with
  | mk answer' last =>
    rw [acts, shown] at alike
    obtain ⟨same, left⟩ := alike
    cases same
    exact ⟨last, rfl, shadows.sees left, left⟩

theorem dropped_idle (shadows : Shadows base s shadow see permits keep related)
    (keeps : keep action = false) (permitted : permits action answer w)
    (acts : act (fun _ => pure ()) base s action w = (answer, middle))
    (start : related w.stored v.stored) : related middle.stored v.stored := by
  cases shadows.dropped keeps permitted with
  | alone result after changes all =>
    cases (all _).symm.trans acts
    exact changes rfl start
  | script script entered changes =>
    have ends := changes fun _ => pure ()
    rw [acts] at ends
    refine ends rfl ?_
    rw [Act.pure_apply, entered]
    exact start

/-- An action that is left out adds nothing to what its script does. -/
theorem dropped_ran (shadows : Shadows base s shadow see permits keep related)
    (keeps : keep action = false) (permitted : permits action answer w)
    (runs : RunsScript base s action w) {ended : Except Raised Unit} {finish : World}
    (acts : act (fun _ => Act.landing ended finish) base s action w = (answer, middle))
    (inside : related finish.stored v.stored) : related middle.stored v.stored := by
  cases shadows.dropped keeps permitted with
  | alone result after changes all =>
    obtain ⟨_, _, differ⟩ := runs
    rw [all, all] at differ
    exact absurd rfl differ
  | script script entered changes =>
    have ends := changes fun _ => Act.landing ended finish
    rw [acts] at ends
    exact ends rfl inside

/-- The answers of the first store are those of the second one, which gets only what is kept. -/
theorem happens (shadows : Shadows base s shadow see permits keep related)
    (happens : Happens base s see permits trace w after) (start : related w.stored v.stored) :
    ∃ last, Happens base shadow see (fun _ _ _ => True) (trace.only keep) v last ∧
      related after.stored last.stored := by
  induction happens generalizing v with
  | done same =>
    refine ⟨v, .done rfl, ?_⟩
    rwa [same]
  | @made w before middle after action answer rest same permitted idle acts later ih =>
    rw [← same] at start
    rw [Trace.only]
    cases keeps : keep action with
    | true =>
      obtain ⟨next, shown, sight, left⟩ :=
        shadows.kept_step keeps _ (fun _ => pure ()) (fun _ => .of (.ok ())) acts start
      obtain ⟨last, remains, ends⟩ := ih left
      rw [sight]
      exact ⟨last, .made rfl trivial (mt (shadows.runsScript_iff keeps start).1 idle) shown remains,
        ends⟩
    | false =>
      obtain ⟨last, remains, ends⟩ := ih (shadows.dropped_idle keeps permitted acts start)
      exact ⟨last, remains, ends⟩
  | @ran w before finish middle after action within rest ended answer same permitted runs body acts
      later inside ih =>
    rw [← same] at start
    obtain ⟨finish', remainsBody, ended'⟩ := inside start
    rw [Trace.only]
    cases keeps : keep action with
    | true =>
      obtain ⟨next, shown, sight, left⟩ :=
        shadows.kept_step keeps (fun _ => Act.landing ended finish)
          (fun _ => Act.landing ended finish') (fun _ _ _ _ => ⟨rfl, ended'⟩) acts start
      obtain ⟨last, remains, ends⟩ := ih left
      rw [sight]
      exact ⟨last, .ran rfl trivial ((shadows.runsScript_iff keeps start).2 runs) remainsBody shown
        remains, ends⟩
    | false =>
      obtain ⟨last, remains, ends⟩ := ih (shadows.dropped_ran keeps permitted runs acts ended')
      exact ⟨last, remainsBody.append remains, ends⟩

end Shadows

section Sessions

variable {σ : Type} {base : Place} {s : Store} {setup : Setup} {w : World}

def anything (_ : Action) (_ : Except Raised Answer) (_ : World) : Prop :=
  True

/-- From one world to another there is a trace with such answers. -/
def Traced (base : Place) (s : Store) (see : Host → σ) (w after : World)
    (answers : List (Except Raised Answer)) : Prop :=
  ∃ trace, Happens base s see anything trace w after ∧ trace.answers = answers

variable {see : Host → σ}

theorem once_traced {run : ScriptRunner} {action : Action} {value : Answer}
    {more : Stored → Stored} (once : Act.Once value more (fun run => act run base s action) w)
    (scripts : ∀ script v, ∃ answers, Traced base s see v (run script v).2 answers) :
    Traced base s see w (act run base s action w).2 [(act run base s action w).1] := by
  cases once with
  | idle result after left all =>
    have idle : ¬RunsScript base s action w :=
      not_runsScript fun run copy => by rw [all run, all copy]
    rw [all run]
    exact ⟨_, .made rfl trivial idle (all _) (.done rfl), rfl⟩
  | @runs script start same ending finishing done failed left all =>
    have runs : RunsScript base s action w := by
      obtain ⟨other, ends⟩ := failed (.mishap .noSuchOperation)
      refine ⟨.ok (), .error (.mishap .noSuchOperation), ?_⟩
      rw [all, all]
      change ending (.ok ()) ≠ ending (.error (.mishap .noSuchOperation))
      rw [done, ends]
      exact nofun
    have acts : act (fun _ => Act.landing (run script start).1 (run script start).2) base s action w =
        act run base s action w := by
      rw [all, all]
      rfl
    obtain ⟨answers, within, happens, _⟩ := scripts script start
    exact ⟨_, .ran rfl trivial runs (happens.start same.symm) acts (.done rfl), rfl⟩

theorem act_traced {run : ScriptRunner} {action : Action} (direct : action.IsDirect)
    (scripts : ∀ script v, ∃ answers, Traced base s see v (run script v).2 answers) :
    Traced base s see w (act run base s action w).2 [(act run base s action w).1] := by
  have alone : (∀ run copy, act run base s action w = act copy base s action w) →
      Traced base s see w (act run base s action w).2 [(act run base s action w).1] := by
    intro same
    have idle := not_runsScript fun run copy => congrArg Prod.fst (same run copy)
    exact ⟨_, .made rfl trivial idle (same _ run) (.done rfl), rfl⟩
  cases action with
  | require path =>
    obtain ⟨more, once, _⟩ := s.require_once path w
    exact once_traced (once.answer Answer.outcome) scripts
  | load path => exact once_traced ((s.load_once path w).answer Answer.outcome) scripts
  | requireName _ => exact direct.elim
  | loadName _ => exact direct.elim
  | requireRelative _ => exact direct.elim
  | evaluate _ _ => exact direct.elim
  | preloadSource _ _ => exact direct.elim
  | preloadHook _ _ => exact direct.elim
  | _ => exact alone fun _ _ => rfl

theorem step_direct (run : ScriptRunner) {st : Step} (whole : st.part = .whole) :
    step run setup st = act run setup.base setup.store st.action := by
  unfold step
  rw [whole]
  split <;> rfl

theorem runSteps_traced {perform : Step → Act Answer} {script : List ScriptStep}
    (steps : ∀ st ∈ script, ∀ v,
      Traced base s see v (perform st.step v).2 [(perform st.step v).1]) (w : World) :
    ∃ answers, Traced base s see w (runSteps perform script w).2 answers := by
  induction script generalizing w with
  | nil => exact ⟨[], .done, .done rfl, rfl⟩
  | cons st rest ih =>
    obtain ⟨first, happens, _⟩ := steps st List.mem_cons_self w
    have later := ih fun other member => steps other (List.mem_cons_of_mem st member)
    rw [runSteps, Act.bind_apply, Act.attempt]
    cases done : perform st.step w with
    | mk result after =>
      rw [done] at happens
      have goesOn : ∀ e : Event, ∃ answers, Traced base s see w
          (runSteps perform rest { after with events := e :: after.events }).2 answers := by
        intro e
        obtain ⟨answers, second, more, _⟩ := later { after with events := e :: after.events }
        exact ⟨_, _, happens.append (more.start rfl), rfl⟩
      cases result with
      | ok answer => exact goesOn _
      | error raised =>
        cases rescue : st.rescue with
        | true =>
          simp only [if_true]
          exact goesOn _
        | false =>
          simp only [Bool.false_eq_true, if_false]
          exact ⟨_, first, happens, rfl⟩

theorem nextRun_stored (scripts : Scripts) (script : Text) (w : World) :
    (nextRun scripts script w).2.stored = w.stored := by
  rw [nextRun_eq]
  rfl

theorem runScript_traced (direct : setup.IsDirect) (depth : Nat) (script : Text) (w : World) :
    ∃ answers, Traced setup.base setup.store see w (runScript setup depth script w).2 answers := by
  induction depth generalizing script w with
  | zero =>
    have kept := nextRun_stored setup.scripts script w
    rw [runScript, Act.bind_apply]
    cases next : nextRun setup.scripts script w with
    | mk result after =>
      rw [next] at kept
      cases result <;> exact ⟨[], .done, .done kept, rfl⟩
  | succ depth ih =>
    have kept := nextRun_stored setup.scripts script w
    rw [runScript, Act.bind_apply]
    cases next : nextRun setup.scripts script w with
    | mk result after =>
      rw [next] at kept
      cases result with
      | error raised => exact ⟨[], .done, .done kept, rfl⟩
      | ok steps =>
        have each : ∀ st ∈ steps, ∀ v, Traced setup.base setup.store see v
            (step (runScript setup depth) setup st.step v).2
            [(step (runScript setup depth) setup st.step v).1] := by
          intro st member v
          obtain ⟨whole, known⟩ : st.step.part = .whole ∧ st.step.action.IsDirect := by
            rcases nextRun_steps next with rfl | ⟨entry, inside, listed⟩
            · exact absurd member List.not_mem_nil
            · exact direct entry inside steps listed st member
          rw [step_direct _ whole]
          exact act_traced known ih
        obtain ⟨answers, trace, happens, _⟩ := runSteps_traced each after
        exact ⟨_, trace, happens.start kept.symm, rfl⟩

/-- A session whose steps are direct actions has a trace with the answers it reports. -/
theorem run_traced (direct : setup.IsDirect) {steps : List Step}
    (known : ∀ st ∈ steps, st.part = .whole ∧ st.action.IsDirect) (w : World) :
    Traced setup.base setup.store see w (run setup steps w).2
      ((run setup steps w).1.map StepReport.result) := by
  induction steps generalizing w with
  | nil => exact ⟨.done, .done rfl, rfl⟩
  | cons st rest ih =>
    obtain ⟨whole, first⟩ := known st List.mem_cons_self
    have later := ih fun other member => known other (List.mem_cons_of_mem st member)
    have asked : Traced setup.base setup.store see w (report setup st w).2
        [(report setup st w).1.result] := by
      obtain ⟨trace, happens, answered⟩ := act_traced (w := { w with events := [], log := [] })
        first (runScript_traced direct (depth setup.scripts))
      rw [← step_direct _ whole] at happens answered
      exact ⟨trace, happens.start rfl, answered⟩
    obtain ⟨trace, happens, answered⟩ := asked
    obtain ⟨others, more, further⟩ := later (report setup st w).2
    refine ⟨trace.append others, happens.append more, ?_⟩
    rw [Trace.answers_append, answered, further]
    rfl

end Sessions

end Session

end Loadable
