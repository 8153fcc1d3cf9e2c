import Loadable.Proofs.Arrival
import Loadable.Proofs.Bodies
import Loadable.Proofs.Candidates
import Loadable.Proofs.Reachable
import Loadable.Proofs.Registration
/-!
Registration is for good. Whatever a session does once a feature is registered, at top level or inside
scripts, a require of the feature runs nothing any more.
-/
namespace Loadable

/-- The worlds that a session may come to after a given one, also in the middle of scripts: after whole
steps, and where calls that had begun before go on or end. A require that ends registers its feature;
apart from that, nothing that is not a step touches the tables. -/
inductive Later (setup : Setup) (w : World) : World → Prop where
  | now : Later setup w w
  | step {v : World} (before : Later setup w v) (depth : Nat) (st : Step) :
      Later setup w (Session.step (Session.runScript setup depth) setup st v).2
  | aside {v after : World} (before : Later setup w v) (tables : after.tables = v.tables) :
      Later setup w after
  | registers {v : World} (before : Later setup w v) (feature : Key) :
      Later setup w { v with
        tables := { v.tables with features := v.tables.features.mark feature } }

namespace Later

variable {setup : Setup} {w v : World}

theorem keeps {holds : Tables → Prop} (later : Later setup w v)
    (steps : ∀ depth st, Act.Keeps holds (Session.step (Session.runScript setup depth) setup st))
    (marks : ∀ {t : Tables} (feature : Key), holds t →
      holds { t with features := t.features.mark feature })
    (before : holds w.tables) : holds v.tables := by
  induction later with
  | now => exact before
  | step earlier depth st ih => exact steps depth st _ ih
  | aside earlier tables ih => rwa [tables]
  | registers earlier feature ih => exact marks feature ih

theorem isLoaded {feature : Key} (later : Later setup w v)
    (known : w.tables.features.isLoaded feature = true) :
    v.tables.features.isLoaded feature = true := by
  have steps : ∀ depth st, Act.Keeps (fun t => t.features.isLoaded feature = true)
      (Session.step (Session.runScript setup depth) setup st) := by
    intro depth st v known
    have evolves := Session.step_evolving (Session.runScript_evolving setup depth) setup st v
    obtain ⟨since, accounted⟩ := evolves.accounted
    rw [accounted.features, Registry.isLoaded_foldl_mark]
    exact .inl known
  refine later.keeps steps (fun other known => ?_) known
  rw [Registry.isLoaded_iff] at known ⊢
  exact Registry.mem_mark.2 (.inl known)

theorem runSteps (later : Later setup w v) (depth : Nat) (script : List ScriptStep) :
    Later setup w
      (Session.runSteps (Session.step (Session.runScript setup depth) setup) script v).2 := by
  induction script generalizing v with
  | nil => exact later
  | cons st rest ih =>
    have taken := later.step depth st.step
    rcases Session.runSteps_cons (Session.step (Session.runScript setup depth) setup) st v with
      ⟨e, goes⟩ | ⟨_, raised, _, stops⟩
    · rw [goes]
      exact ih (.aside taken rfl)
    · rw [stops]
      exact taken

theorem entered {st : Step} {made : Call} {script : Text} {start : World} (later : Later setup w v)
    (makes : Act.Makes (fun run => Session.step run setup st) v made script start) :
    Later setup w start :=
  .aside later (Stored.mk.inj makes.stored).1

theorem run (later : Later setup w v) (steps : List Step) :
    Later setup w (Session.run setup steps v).2 := by
  induction steps generalizing v with
  | nil => exact later
  | cons st rest ih =>
    have cleared : Later setup w { v with events := [], log := [] } := .aside later rfl
    exact ih (cleared.step _ st)

end Later

namespace History

/-- From the moment the feature is known, every require of it ends at once. The calls inside a call
come before its end, and after those that ended before it was made. -/
def Settles (feature : Key) (known : Prop) : History → Prop
  | nothing => True
  | call earlier made within ended =>
    earlier.Settles feature known ∧ within.Settles feature (known ∨ feature ∈ earlier.loaded) ∧
      (made = .require feature → known ∨ feature ∈ earlier.loaded →
        within = nothing ∧ ended = .ok (.outcome .alreadyLoaded))

theorem settles_append (feature : Key) (known : Prop) (first second : History) :
    (first ++ second).Settles feature known ↔
      first.Settles feature known ∧ second.Settles feature (known ∨ feature ∈ first.loaded) := by
  induction second with
  | nothing => simp [Settles]
  | call earlier made within ended ih =>
    simp only [append_call, Settles, ih, loaded_append, List.mem_append, or_assoc, and_assoc]

theorem eq_nothing {h since : History} (same : h = h ++ since) : since = .nothing :=
  append_left_cancel (same.symm.trans (append_nothing h).symm)

theorem eq_call {h since within : History} {made : Call} {ended : Except Raised Answer}
    (same : h.call made within ended = h ++ since) : since = .call .nothing made within ended :=
  append_left_cancel (same.symm.trans (append_call h .nothing made within ended).symm)

/-- A call that is no require of what is known says nothing itself: only the calls inside it matter. -/
theorem settles_call {feature : Key} {known : Prop} {made : Call} {within : History}
    {ended : Except Raised Answer} (settles : within.Settles feature known)
    (unknown : made = .require feature → ¬known) :
    (call .nothing made within ended).Settles feature known := by
  refine ⟨trivial, by simpa [loaded] using settles, ?_⟩
  intro same said
  exact absurd (said.resolve_right List.not_mem_nil) (unknown same)

end History

theorem Evolves.settles {w after : World} (evolves : Evolves w after) {since : History}
    (history : after.history = w.history ++ since) (feature : Key) :
    since.Settles feature (w.tables.features.isLoaded feature = true) := by
  induction evolves generalizing since with
  | aside tables host files same started =>
    rw [same] at history
    rw [History.eq_nothing history]
    trivial
  | host changed =>
    rw [History.eq_nothing history]
    trivial
  | insert inserted =>
    rw [History.eq_nothing history]
    trivial
  | trans first rest left right =>
    obtain ⟨before, accounted⟩ := first.accounted
    obtain ⟨later, further⟩ := rest.accounted
    have split : since = before ++ later := by
      apply History.append_left_cancel
      rw [← history, further.history, accounted.history, History.append_assoc]
    have settled := right further.history
    rw [accounted.features, Registry.isLoaded_foldl_mark] at settled
    rw [split, History.settles_append]
    exact ⟨left accounted.history, settled⟩
  | source filename data ended body ih =>
    rw [History.eq_call history]
    exact History.settles_call (ih (History.nothing_append _).symm) nofun
  | hook key hook ended body ih =>
    rw [History.eq_call history]
    exact History.settles_call (ih (History.nothing_append _).symm) nofun
  | load key ended body ih =>
    rw [History.eq_call history]
    exact History.settles_call (ih (History.nothing_append _).symm) nofun
  | require own unknown body ih =>
    rw [History.eq_call history]
    apply History.settles_call (ih (History.nothing_append _).symm)
    intro same
    cases same
    exact Bool.eq_false_iff.1 unknown
  | requireFailed own raised unknown body ih =>
    rw [History.eq_call history]
    apply History.settles_call (ih (History.nothing_append _).symm)
    intro same
    cases same
    exact Bool.eq_false_iff.1 unknown
  | requireAgain own known =>
    rw [History.eq_call history]
    exact ⟨trivial, trivial, fun _ _ => ⟨rfl, rfl⟩⟩

namespace Store

theorem require_registers {run : ScriptRunner} (scripts : run.Evolving) {s : Store}
    {path : GivenPath} {w after : World} (loaded : s.require run path w = (.ok .loaded, after)) :
    ∃ feature, (s.featureOf path w).1 = .ok feature ∧
      after.tables.features.isLoaded feature = true := by
  have evolves := s.require_evolving scripts path w
  obtain ⟨since, history, ends⟩ := s.require_ends run path w
  rw [loaded] at evolves history ends
  obtain ⟨feature, within, named, unknown, shape⟩ := ends
  have registered := (evolves.registered history).features
  refine ⟨feature, named, ?_⟩
  rw [registered, Registry.isLoaded_foldl_mark, shape]
  exact .inr (by simp [History.loaded, Call.loads])

section Memory

variable {s : Store} (memory : s.backend = .memory) {path : GivenPath} {key : Key}
  (resolved : s.ownKey path = .ok key)

include memory

theorem featureKey_memory (key : Key) : s.featureKey key = pure key := by
  unfold featureKey
  rw [memory]

include resolved

theorem featureOf_memory (w : World) : s.featureOf path w = (.ok key, w) := by
  have arrived := (leadsTo_ownKey (.inl memory) resolved).resolve w
  simp only [featureOf, memory, Act.bind_apply, arrived, featureKey_memory memory]
  rfl

theorem isRequired_memory (w : World) :
    s.isRequired path w = (.ok (w.tables.features.isLoaded key), w) := by
  rw [(leadsTo_ownKey (.inl memory) resolved).isRequired_eq, featureKey_memory memory]
  rfl

theorem require_recorded (run : ScriptRunner) (w : World) :
    ∃ within, (s.require run path w).2.history =
      w.history.call (.require key) within ((s.require run path w).1.map .outcome) := by
  rw [(leadsTo_ownKey (.inl memory) resolved).require_eq, requireKey, featureKey_memory memory]
  exact ⟨_, rfl⟩

theorem require_known (run : ScriptRunner) {w : World}
    (known : w.tables.features.isLoaded key = true) :
    ∃ log, s.require run path w = (.ok .alreadyLoaded, { w with
      log := log
      history := w.history.call (.require key) .nothing (.ok (.outcome .alreadyLoaded)) }) := by
  rw [(leadsTo_ownKey (.inl memory) resolved).require_eq, requireKey, featureKey_memory memory]
  obtain ⟨log, again⟩ := s.requireFeature_known run key (w := w.forCall) known
  refine ⟨log, ?_⟩
  change Act.recorded (.require key) .outcome (s.requireFeature run key key) w = _
  rw [Act.recorded_apply, again]
  rfl

end Memory

end Store

namespace Interpreter

/-- A name is required as soon as one of its candidates is, if the store can be asked about all. -/
theorem require_known (run : ScriptRunner) {s : Store} (memory : s.backend = .memory)
    {given : GivenPath} {name : Text} (usable : given.asText = .ok name) {key : Key} {w : World}
    (resolve : ∀ candidate ∈ featureCandidates name,
      ∃ own, s.ownKey (.text candidate) = .ok own)
    (meant : ∃ candidate ∈ featureCandidates name, s.ownKey (.text candidate) = .ok key)
    (known : w.tables.features.isLoaded key = true) :
    ∃ log, Interpreter.require run s given w = (.ok false, { w with log := log }) := by
  obtain ⟨candidate, member, resolved⟩ := meant
  have required : (anyRequired s (featureCandidates name) w).1 = .ok true := by
    rw [anyRequired_eq]
    refine firstYes_of_mem ?_ member ?_
    · intro other among
      obtain ⟨own, resolved⟩ := resolve other among
      exact ⟨_, by rw [Store.isRequired_memory memory resolved]⟩
    · rw [Store.isRequired_memory memory resolved, known]
  obtain ⟨log, answers⟩ := requireName_eq s name w
  refine ⟨log, ?_⟩
  rw [Interpreter.require, usable]
  change requireName run s name w = _
  rw [answers run, required]

end Interpreter

namespace Session

/-- Once a feature is loaded into a memory store it stays so. In the history of a session every
require of the feature that is made later, at any depth, is answered at once with nothing run inside
it; requires are recorded under the keys of their paths, whatever their spelling. And in every world
that the session comes to after the require that loaded it, a require of any path with that key
leaves a line in the log and its own record, and an interpreter that knows the key among the
candidates of a name leaves a line in the log. Those worlds are the ones that steps and scripts leave,
and the ones that scripts inside them start in. -/
theorem loaded_for_good (setup : Setup) (memory : setup.store.backend = .memory) :
    (∀ (steps : List Step) (w : World) (feature : Key),
      (Session.run setup steps w.fresh).2.history.Settles feature False) ∧
    (∀ (run : ScriptRunner) (path : GivenPath) (key : Key) (w : World),
      setup.store.ownKey path = .ok key →
      ∃ within, (setup.store.require run path w).2.history =
        w.history.call (.require key) within ((setup.store.require run path w).1.map .outcome)) ∧
    (∀ (depth : Nat) (path : GivenPath) (key : Key) (w after v : World),
      setup.store.ownKey path = .ok key →
      setup.store.require (runScript setup depth) path w = (.ok .loaded, after) →
      Later setup after v → ∀ run,
      (∀ other, setup.store.ownKey other = .ok key →
        ∃ log, setup.store.require run other v = (.ok .alreadyLoaded, { v with
          log := log
          history := v.history.call (.require key) .nothing (.ok (.outcome .alreadyLoaded)) })) ∧
      (∀ given name, given.asText = .ok name →
        (∀ candidate ∈ featureCandidates name,
          ∃ own, setup.store.ownKey (.text candidate) = .ok own) →
        (∃ candidate ∈ featureCandidates name, setup.store.ownKey (.text candidate) = .ok key) →
        ∃ log, Interpreter.require run setup.store given v = (.ok false, { v with log := log }))) ∧
    (∀ (w v : World), Later setup w v →
      (∀ steps, Later setup w (Session.run setup steps v).2) ∧
      (∀ depth script, Later setup w (runSteps (step (runScript setup depth) setup) script v).2) ∧
      (∀ st made script start, Act.Makes (fun run => step run setup st) v made script start →
        Later setup w start)) := by
  refine ⟨?_, fun run path key w resolved => Store.require_recorded memory resolved run w, ?_, ?_⟩
  · intro steps w feature
    have settled := (run_evolves setup steps w.fresh).settles (History.nothing_append _).symm feature
    simpa [World.fresh, Registry.isLoaded] using settled
  · intro depth path key w after v resolved loaded later run
    obtain ⟨feature, named, registered⟩ :=
      Store.require_registers (runScript_evolving setup depth) loaded
    rw [Store.featureOf_memory memory resolved] at named
    cases named
    have known := later.isLoaded registered
    refine ⟨fun other same => Store.require_known memory same run known, ?_⟩
    intro given name usable resolve meant
    exact Interpreter.require_known run memory usable resolve meant known
  · intro w v later
    exact ⟨later.run, later.runSteps, fun st made script start makes => later.entered makes⟩

/-- A source that is tried first, and a hook in the place of the one that was run, come too late. -/
theorem better_candidate_late :
    let setup : Setup := { store := ⟨.nt, Flavor.nt.loadRoot, .memory⟩ }
    let given : GivenPath := .text ("a" : Text)
    let w := (Session.run setup
      [⟨.whole, .write given (.bytes (Bytes.ofString "x = 1"))⟩] {}).2
    let after := (setup.store.require (runScript setup 0) given w).2
    let v := (Session.run setup
      [⟨.whole, .write (.text ("a.rb" : Text)) (.bytes (Bytes.ofString "x = 2"))⟩,
        ⟨.whole, .registerExtension (.text ("b\\..\\a" : Text)) (.hook ⟨("h" : Text), none, none⟩)⟩]
      after).2
    v.tables.hooks.size = 1 ∧
      (Interpreter.require (runScript setup 0) setup.store given v).1 = .ok false := by
  intro setup given w after v
  have resolved : setup.store.ownKey given =
      .ok (Bytes.ofString "c:/artichoke/virtual_root/src/lib/a") := by decide +kernel
  have ended : (setup.store.require (runScript setup 0) given w).1 = .ok .loaded := by
    decide +kernel
  have loaded : setup.store.require (runScript setup 0) given w = (.ok .loaded, after) :=
    (Prod.eta _).symm.trans (congrArg (·, after) ended)
  have later : Later setup after v := Later.now.run _
  have hooked : v.tables.hooks.size = 1 := by decide +kernel
  clear_value v after w
  have candidates : featureCandidates ("a" : Text) = [("a.rb" : Text), ("a" : Text)] := by
    decide +kernel
  have resolve : ∀ candidate ∈ featureCandidates ("a" : Text),
      ∃ own, setup.store.ownKey (.text candidate) = .ok own := by
    intro candidate member
    rw [candidates] at member
    rcases List.mem_cons.1 member with rfl | member
    · exact ⟨Bytes.ofString "c:/artichoke/virtual_root/src/lib/a.rb", by decide +kernel⟩
    · rw [List.mem_singleton.1 member]
      exact ⟨_, resolved⟩
  have meant : ("a" : Text) ∈ featureCandidates ("a" : Text) := by
    rw [candidates]
    simp
  obtain ⟨log, answer⟩ := ((loaded_for_good setup rfl).2.2.1 0 given _ w after v resolved loaded
    later (runScript setup 0)).2 given ("a" : Text) rfl resolve ⟨_, meant, resolved⟩
  refine ⟨hooked, ?_⟩
  rw [answer]

end Session

end Loadable
