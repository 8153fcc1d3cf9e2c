import Loadable.Proofs.Evolution
/-!
What a require and a load call: the hook or the source at the key, once, or nothing when neither is
there. Which one it is does not depend on what has been required.
-/
namespace Loadable

namespace Store

open Act (Quiet Looks)

def featureOf (s : Store) (path : GivenPath) : Act Key := do
  match s.backend with
  | .searchPath roots =>
    let (root, key) ← s.findOrRaise roots path
    (s.nativeAt root).featureKey key
  | _ => s.featureKey (← s.resolve path)

def callee (s : Store) (key : Key) : Act Call := do
  match (← Act.world).tables.hooks.get? key with
  | some hook => return .hook key hook
  | none => return .source (Text.decode key) (← s.readKey key)

def target (s : Store) (path : GivenPath) : Act (Key × Call) := do
  match s.backend with
  | .searchPath roots =>
    let (root, key) ← s.findOrRaise roots path
    return (key, ← (s.nativeAt root).callee key)
  | _ =>
    let key ← s.resolve path
    return (key, ← s.callee key)

theorem callee_looks (s : Store) (key : Key) : Looks (s.callee key) := by
  refine .world_bind (fun w => ?_) fun alike => by rw [alike.hooks]
  split
  · exact .pure _
  · exact .bind (s.readKey_looks key) fun _ => .pure _

theorem target_looks (s : Store) (path : GivenPath) : Looks (s.target path) := by
  unfold target
  split
  · exact .bind (s.findOrRaise_looks _ path) fun found =>
      .bind (callee_looks _ _) fun _ => .pure _
  · exact .bind (s.resolve_looks path) fun key => .bind (s.callee_looks key) fun _ => .pure _

theorem recorded_history {α : Type} {made : Call} {answer : α → Answer} {x : Act α}
    {result : Except Raised α} {w after : World}
    (ran : Act.recorded made answer x w = (result, after)) :
    ∃ within, after.history = w.history.call made within (result.map answer) := by
  cases ran
  exact ⟨_, rfl⟩

theorem runHook_called (run : ScriptRunner) (s : Store) (key : Key) (hook : Hook) (w : World) :
    ∃ within ran,
      (s.runHook run key hook w).2.history = w.history.call (.hook key hook) within ran ∧
      ((s.runHook run key hook w).1 = .ok () ↔ ran = .ok .nothing) := by
  obtain ⟨start, logged, same⟩ : ∃ start : World,
      s.log .debug .protocol (("Running extension hook " : Text) ++ hook.name ++
        (" for " : Text) ++ key.display) w = (.ok (), start) ∧ start.history = w.history :=
    ⟨_, rfl, rfl⟩
  cases called : callHook run key hook start with
  | mk result after =>
    obtain ⟨within, history⟩ := recorded_history called
    rw [same] at history
    refine ⟨within, result.map fun () => .nothing, ?_⟩
    rw [← history, runHook, Act.bind_apply, logged]
    simp only [Act.bind_apply, Act.attempt, called]
    cases result with
    | ok => exact ⟨rfl, by simp [Except.map]⟩
    | error raised =>
      cases raised with
      | fault fault => exact ⟨rfl, by simp [Except.map, Act.raise]⟩
      | mishap mishap =>
        cases failure : mishap.isFailure with
        | false =>
          simp only [failure, Bool.false_eq_true, if_false]
          exact ⟨rfl, by simp [Except.map, Act.raise]⟩
        | true =>
          simp only [failure, if_true]
          exact ⟨rfl, nofun, nofun⟩

theorem evaluate_called (run : ScriptRunner) (source : Bytes) (filename : Text) (w : World) :
    ∃ within, ∃ result : Except Raised Unit,
      (evaluate run source filename w).2.history =
        w.history.call (.source filename source) within (result.map fun () => .nothing) ∧
      (evaluate run source filename w).1 = result.map fun () => source.length := by
  cases called : Act.recorded (.source filename source) (fun () => Answer.nothing)
      (runSource run source filename) { w with files := filename :: w.files } with
  | mk result inner =>
    obtain ⟨within, history⟩ := recorded_history called
    have evaluated : evaluate run source filename w =
        (result.map fun () => source.length, { inner with files := inner.files.tail }) := by
      rw [evaluate, Act.bind_apply, Act.asFile_apply, called]
      cases result <;> rfl
    refine ⟨within, result, ?_⟩
    rw [evaluated]
    exact ⟨history, rfl⟩

section Callee

variable (run : ScriptRunner) (s : Store) {key : Key} {w : World}

theorem callee_hook {hook : Hook} (held : w.tables.hooks.get? key = some hook) :
    s.callee key w = (.ok (.hook key hook), w) := by
  simp [callee, Act.bind_apply, Act.world, held]

theorem callee_source (free : w.tables.hooks.get? key = none) :
    s.callee key w = (s.readKey key >>= fun data => pure (.source (Text.decode key) data)) w := by
  simp [callee, Act.bind_apply, Act.world, free]

theorem execute_hook {hook : Hook} (held : w.tables.hooks.get? key = some hook) :
    s.execute run key w = s.runHook run key hook w := by
  simp [execute, Act.bind_apply, Act.world, held]

theorem execute_source (free : w.tables.hooks.get? key = none) :
    s.execute run key w = (do
      let source ← s.readKey key
      let _ ← evaluate run source (Text.decode key)) w := by
  simp [execute, Act.bind_apply, Act.world, free]

end Callee

/-- Where a key stands for a call, that call is made once. -/
theorem execute_called (run : ScriptRunner) {s : Store} {key : Key} {made : Call} {w : World}
    (found : (s.callee key w).1 = .ok made) :
    ∃ within ran,
      (s.execute run key w).2.history = w.history.call made within ran ∧
      ((s.execute run key w).1 = .ok () ↔ ran = .ok .nothing) := by
  cases held : w.tables.hooks.get? key with
  | some hook =>
    rw [callee_hook s held] at found
    cases found
    rw [execute_hook run s held]
    exact runHook_called run s key hook w
  | none =>
    rw [callee_source s held] at found
    rw [execute_source run s held]
    cases read : s.readKey key w with
    | mk result after =>
      rw [Act.bind_apply, read] at found
      cases result with
      | error raised => cases found
      | ok source =>
        cases found
        have unchanged := (s.readKey_looks key).quiet.eq_log read
        have same : after.history = w.history := by rw [unchanged]
        obtain ⟨within, ended, history, answer⟩ :=
          evaluate_called run source (Text.decode key) after
        rw [same] at history
        refine ⟨within, ended.map fun () => .nothing, ?_⟩
        rw [← history, Act.bind_apply, read]
        cases evaluated : evaluate run source (Text.decode key) after with
        | mk count last =>
          rw [evaluated] at answer
          cases answer
          simp only [Act.bind_apply, evaluated]
          cases ended with
          | ok => exact ⟨rfl, by simp [Except.map]⟩
          | error raised => exact ⟨rfl, by simp [Except.map]⟩

theorem execute_missed (run : ScriptRunner) {s : Store} {key : Key} {raised : Raised} {w : World}
    (missed : (s.callee key w).1 = .error raised) :
    ∃ log, s.execute run key w = (.error raised, { w with log := log }) := by
  cases held : w.tables.hooks.get? key with
  | some hook =>
    rw [callee_hook s held] at missed
    cases missed
  | none =>
    rw [callee_source s held] at missed
    rw [execute_source run s held]
    cases read : s.readKey key w with
    | mk result after =>
      rw [Act.bind_apply, read] at missed ⊢
      have unchanged := (s.readKey_looks key).quiet.eq_log read
      cases result with
      | error raised =>
        cases missed
        exact ⟨after.log, by rw [← unchanged]⟩
      | ok source => cases missed

/-- How a load of a target ends, and the calls it leaves: the target's own, once, if there is a
target. -/
def LoadEnds (target : Except Raised (Key × Call)) (ended : Except Raised Outcome)
    (since : History) : Prop :=
  match target with
  | .ok (key, made) => ∃ within ran,
      since = .call .nothing (.load key) (.call .nothing made within ran) (ended.map .outcome) ∧
      (ended = .ok .executed ↔ ran = .ok .nothing)
  | .error raised => ended = .error raised ∧
      (since = .nothing ∨ ∃ key, since = .call .nothing (.load key) .nothing (.error raised))

/-- How a require of a feature ends, and the calls it leaves. Only what is not registered is
loaded. -/
def RequireEnds (feature : Except Raised Key) (w : World) (ended : Except Raised Outcome)
    (since : History) : Prop :=
  match ended with
  | .ok .loaded => ∃ key within, feature = .ok key ∧ w.tables.features.isLoaded key = false ∧
      since = .call .nothing (.require key) within (.ok (.outcome .loaded))
  | .ok .alreadyLoaded => ∃ key, w.tables.features.isLoaded key = true ∧
      since = .call .nothing (.require key) .nothing (.ok (.outcome .alreadyLoaded))
  | .ok .executed => False
  | .error raised => since = .nothing ∨ ∃ key within, feature = .ok key ∧
      since = .call .nothing (.require key) within (.error raised)

theorem loadKey_ends (run : ScriptRunner) (s : Store) (key : Key) (w : World) :
    ∃ since, (s.loadKey run key w).2.history = w.history ++ since ∧
      LoadEnds ((s.callee key w).1.map (key, ·)) (s.loadKey run key w).1 since := by
  have same : (s.callee key w.forCall).1 = (s.callee key w).1 :=
    (s.callee_looks key).answer ⟨rfl, rfl, rfl, rfl⟩
  rw [← same]
  cases found : (s.callee key w.forCall).1 with
  | ok made =>
    obtain ⟨within, ran, history, done⟩ := execute_called run found
    cases executed : s.execute run key w.forCall with
    | mk result inner =>
      rw [executed] at history done
      have loaded : s.loadKey run key w = (result.map fun () => .executed, { inner with
          history := w.history.call (.load key) inner.history
            ((result.map fun () => .executed).map .outcome) }) := by
        rw [loadKey, Act.recorded_apply, Act.bind_apply, executed]
        cases result <;> rfl
      rw [loaded]
      refine ⟨_, (History.append_call _ .nothing _ _ _).symm, within, ran, ?_, ?_⟩
      · rw [history]
        rfl
      · rw [← done]
        cases result <;> simp [Except.map]
  | error raised =>
    obtain ⟨log, executed⟩ := execute_missed run found
    have loaded : s.loadKey run key w = (.error raised, { w with
        log := log
        history := w.history.call (.load key) .nothing (.error raised) }) := by
      rw [loadKey, Act.recorded_apply, Act.bind_apply, executed]
      rfl
    rw [loaded]
    exact ⟨_, (History.append_call _ .nothing _ _ _).symm, rfl, .inr ⟨key, rfl⟩⟩

theorem requireKey_ends (run : ScriptRunner) (s : Store) (key : Key) (w : World) :
    ∃ since, (s.requireKey run key w).2.history = w.history ++ since ∧
      RequireEnds (s.featureKey key w).1 w (s.requireKey run key w).1 since := by
  rw [requireKey, Act.bind_apply]
  cases named : s.featureKey key w with
  | mk result start =>
    have unchanged := (s.featureKey_looks key).quiet.eq_log named
    have tables : start.tables = w.tables := by rw [unchanged]
    have before : start.history = w.history := by rw [unchanged]
    cases result with
    | error raised => exact ⟨.nothing, before, .inl rfl⟩
    | ok feature =>
      simp only [Act.recorded_apply, before]
      cases known : w.tables.features.isLoaded feature with
      | true =>
        rw [← tables] at known
        obtain ⟨log, again⟩ := s.requireFeature_known run key (w := start.forCall) known
        rw [again]
        rw [tables] at known
        exact ⟨_, (History.append_call _ .nothing _ _ _).symm, feature, known, rfl⟩
      | false =>
        rw [← tables] at known
        cases executed : s.execute run key start.forCall with
        | mk result inner =>
          cases result with
          | ok =>
            obtain ⟨log, done⟩ := requireFeature_done (w := start.forCall) known executed
            rw [done]
            rw [tables] at known
            exact ⟨_, (History.append_call _ .nothing _ _ _).symm, feature, _, rfl, known, rfl⟩
          | error raised =>
            rw [requireFeature_failed (w := start.forCall) known executed]
            exact ⟨_, (History.append_call _ .nothing _ _ _).symm, .inr ⟨feature, _, rfl, rfl⟩⟩

theorem load_after {α : Type} {x : Act α} (quiet : Quiet x) (run : ScriptRunner) (part : α → Store)
    (place : α → Key) (w : World) :
    ∃ since, ((x >>= fun a => (part a).loadKey run (place a)) w).2.history = w.history ++ since ∧
      LoadEnds ((x >>= fun a => do return (place a, ← (part a).callee (place a))) w).1
        ((x >>= fun a => (part a).loadKey run (place a)) w).1 since := by
  rw [Act.bind_apply, Act.bind_apply]
  cases found : x w with
  | mk result start =>
    have before : start.history = w.history := by rw [quiet.eq_log found]
    cases result with
    | error raised => exact ⟨.nothing, before, rfl, .inl rfl⟩
    | ok a =>
      obtain ⟨since, history, ends⟩ := (part a).loadKey_ends run (place a) start
      rw [before] at history
      refine ⟨since, history, ?_⟩
      simp only [Act.bind_apply]
      cases called : (part a).callee (place a) start with
      | mk made middle =>
        rw [called] at ends
        cases made with
        | ok made => exact ends
        | error raised => exact ends

theorem load_ends (run : ScriptRunner) (s : Store) (path : GivenPath) (w : World) :
    ∃ since, (s.load run path w).2.history = w.history ++ since ∧
      LoadEnds (s.target path w).1 (s.load run path w).1 since := by
  unfold load target
  cases s.backend with
  | searchPath roots =>
    exact load_after (s.findOrRaise_looks roots path).quiet run (s.nativeAt ·.1) (·.2) w
  | _ => exact load_after (s.resolve_looks path).quiet run (fun _ => s) id w

theorem require_after {α : Type} {x : Act α} (quiet : Quiet x) (run : ScriptRunner)
    (part : α → Store) (place : α → Key) (w : World) :
    ∃ since, ((x >>= fun a => (part a).requireKey run (place a)) w).2.history =
        w.history ++ since ∧
      RequireEnds ((x >>= fun a => (part a).featureKey (place a)) w).1 w
        ((x >>= fun a => (part a).requireKey run (place a)) w).1 since := by
  rw [Act.bind_apply, Act.bind_apply]
  cases found : x w with
  | mk result start =>
    have unchanged := quiet.eq_log found
    have before : start.history = w.history := by rw [unchanged]
    have tables : start.tables = w.tables := by rw [unchanged]
    cases result with
    | error raised => exact ⟨.nothing, before, .inl rfl⟩
    | ok a =>
      obtain ⟨since, history, ends⟩ := (part a).requireKey_ends run (place a) start
      rw [before] at history
      refine ⟨since, history, ?_⟩
      simpa only [RequireEnds, tables] using ends

theorem require_ends (run : ScriptRunner) (s : Store) (path : GivenPath) (w : World) :
    ∃ since, (s.require run path w).2.history = w.history ++ since ∧
      RequireEnds (s.featureOf path w).1 w (s.require run path w).1 since := by
  unfold require featureOf
  cases s.backend with
  | searchPath roots =>
    simp only [Act.bind_apply (s.registeredIn path roots)]
    cases asked : s.registeredIn path roots w with
    | mk result middle =>
      have unchanged := (s.registeredIn_quiet path roots).eq_log asked
      have before : middle.history = w.history := by rw [unchanged]
      have tables : middle.tables = w.tables := by rw [unchanged]
      match result with
      | .error raised => exact ⟨.nothing, before, .inl rfl⟩
      | .ok (some (key, feature)) =>
        have known := registeredIn_isLoaded asked
        refine ⟨.call .nothing (.require feature) .nothing (.ok (.outcome .alreadyLoaded)), ?_,
          feature, known, rfl⟩
        rw [History.append_call, History.append_nothing, ← before]
        rfl
      | .ok none =>
        have found := s.findOrRaise_looks roots path
        have named : Looks (s.findOrRaise roots path >>= fun found =>
            (s.nativeAt found.1).featureKey found.2) :=
          .bind found fun _ => featureKey_looks _ _
        have alike : middle.Alike w := by
          rw [unchanged]
          exact ⟨rfl, rfl, rfl, rfl⟩
        obtain ⟨since, history, ends⟩ :=
          require_after found.quiet run (s.nativeAt ·.1) (·.2) middle
        rw [before] at history
        rw [named.answer alike] at ends
        refine ⟨since, history, ?_⟩
        simpa only [RequireEnds, tables] using ends
  | _ => exact require_after (s.resolve_looks path).quiet run (fun _ => s) id w

end Store

end Loadable
