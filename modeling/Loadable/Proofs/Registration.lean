import Loadable.Proofs.Calls
import Mathlib.Data.List.Induction
/-!
What the registry holds after a session: the features of the requires that loaded theirs, in order
of return, each once. A feature is loaded again only by a require from inside its own body.
-/
namespace Loadable

namespace Registry

theorem mark_known {r : Registry} {feature : Key} (known : r.isLoaded feature = true) :
    r.mark feature = r := by
  simp [mark, known]

theorem loaded_foldl_mark (features : List Key) :
    (features.foldl mark {}).loaded = features.eraseDups := by
  induction features using List.reverseRecOn with
  | nil => rfl
  | append_singleton features feature ih =>
    rw [List.foldl_append, List.foldl_cons, List.foldl_nil, List.eraseDups_append]
    by_cases known : feature ∈ features
    · have marked : (features.foldl mark {}).isLoaded feature = true := by
        rw [isLoaded_iff, ih, List.mem_eraseDups]
        exact known
      rw [mark_known marked, ih]
      simp [List.removeAll, known]
    · have unmarked : ¬(features.foldl mark {}).isLoaded feature = true := by
        rw [isLoaded_iff, ih, List.mem_eraseDups]
        exact known
      simp [mark, unmarked, ih, List.removeAll, known, List.eraseDups_cons]

theorem isLoaded_foldl_mark (r : Registry) (features : List Key) (feature : Key) :
    (features.foldl mark r).isLoaded feature = true ↔
      r.isLoaded feature = true ∨ feature ∈ features := by
  induction features generalizing r with
  | nil => simp
  | cons first features ih =>
    rw [List.foldl_cons, ih, isLoaded_iff, mem_mark, isLoaded_iff, List.mem_cons, or_assoc]

theorem prefix_mark (r : Registry) (feature : Key) : r.loaded <+: (r.mark feature).loaded := by
  unfold mark
  split
  · exact List.prefix_rfl
  · exact List.prefix_append _ _

theorem prefix_foldl_mark (r : Registry) (features : List Key) :
    r.loaded <+: (features.foldl mark r).loaded := by
  induction features generalizing r with
  | nil => exact List.prefix_rfl
  | cons first features ih => exact (r.prefix_mark first).trans (ih _)

end Registry

def Call.loads : Call → Except Raised Answer → List Key
  | .require feature, .ok (.outcome .loaded) => [feature]
  | _, _ => []

namespace History

/-- The features of the requires that loaded theirs, in order of return. -/
def loaded : History → List Key
  | nothing => []
  | call earlier made within ended => earlier.loaded ++ within.loaded ++ made.loads ended

/-- A require loaded the feature while another one that loads it was still running. -/
def Reenters (feature : Key) : History → Prop
  | nothing => False
  | call earlier made within ended =>
    earlier.Reenters feature ∨ within.Reenters feature ∨
      (feature ∈ within.loaded ∧ feature ∈ made.loads ended)

theorem loaded_append (first second : History) :
    (first ++ second).loaded = first.loaded ++ second.loaded := by
  induction second with
  | nothing => simp [loaded]
  | call earlier made within ended ih => simp only [append_call, loaded, ih, List.append_assoc]

theorem reenters_append (feature : Key) (first second : History) :
    (first ++ second).Reenters feature ↔ first.Reenters feature ∨ second.Reenters feature := by
  induction second with
  | nothing => simp [Reenters]
  | call earlier made within ended ih => simp only [append_call, Reenters, ih, or_assoc]

end History

/-- The second world comes out of the first one by the given calls: what they loaded is registered
behind what was, and no feature was loaded that was registered, nor twice unless from inside its
own body. -/
structure Accounted (w after : World) (since : History) : Prop where
  history : after.history = w.history ++ since
  features : after.tables.features = since.loaded.foldl Registry.mark w.tables.features
  fresh : ∀ feature, w.tables.features.isLoaded feature = true → feature ∉ since.loaded
  once : ∀ feature, since.loaded.count feature ≤ 1 ↔ ¬since.Reenters feature

namespace Accounted

theorem aside {w after : World} (features : after.tables.features = w.tables.features)
    (history : after.history = w.history) : Accounted w after .nothing where
  history := history
  features := features
  fresh := fun _ _ => List.not_mem_nil
  once := fun feature => by simp [History.loaded, History.Reenters]

theorem trans {w middle after : World} {first second : History} (left : Accounted w middle first)
    (right : Accounted middle after second) : Accounted w after (first ++ second) where
  history := by rw [right.history, left.history, History.append_assoc]
  features := by rw [right.features, left.features, History.loaded_append, List.foldl_append]
  fresh := by
    intro feature known
    have still : middle.tables.features.isLoaded feature = true := by
      rw [left.features, Registry.isLoaded_foldl_mark]
      exact .inl known
    rw [History.loaded_append, List.mem_append]
    rintro (before | later)
    · exact left.fresh feature known before
    · exact right.fresh feature still later
  once := by
    intro feature
    rw [History.loaded_append, List.count_append, History.reenters_append, not_or,
      ← left.once, ← right.once]
    by_cases member : feature ∈ first.loaded
    -- What the first part has loaded is registered by then, so the second part does not load it.
    · have known : middle.tables.features.isLoaded feature = true := by
        rw [left.features, Registry.isLoaded_foldl_mark]
        exact .inr member
      rw [List.count_eq_zero_of_not_mem (right.fresh feature known)]
      omega
    · rw [List.count_eq_zero_of_not_mem member]
      omega

theorem call {w start inner after : World} {within : History} (body : Accounted start inner within)
    (tables : start.tables = w.tables) (empty : start.history = .nothing)
    (made : Call) (ended : Except Raised Answer) (silent : made.loads ended = [])
    (features : after.tables.features = inner.tables.features)
    (history : after.history = w.history.call made inner.history ended) :
    Accounted w after (.call .nothing made within ended) where
  history := by
    rw [history, body.history, empty]
    simp
  features := by
    rw [features, body.features, tables]
    simp [History.loaded, silent]
  fresh := by
    intro feature known
    rw [← tables] at known
    simpa [History.loaded, silent] using body.fresh feature known
  once := by
    intro feature
    simpa [History.loaded, History.Reenters, silent] using body.once feature

theorem require {w inner after : World} {within : History} (body : Accounted w.forCall inner within)
    {feature : Key} (unknown : w.tables.features.isLoaded feature = false)
    (features : after.tables.features = inner.tables.features.mark feature)
    (history : after.history =
      w.history.call (.require feature) inner.history (.ok (.outcome .loaded))) :
    Accounted w after (.call .nothing (.require feature) within (.ok (.outcome .loaded))) where
  history := by
    rw [history, body.history]
    simp [World.forCall]
  features := by
    rw [features, body.features]
    simp [History.loaded, Call.loads, World.forCall]
  fresh := by
    intro other known
    have different : other ≠ feature := by
      rintro rfl
      rw [unknown] at known
      cases known
    simpa [History.loaded, Call.loads, different] using body.fresh other known
  once := by
    intro other
    have inside := body.once other
    by_cases same : other = feature
    -- The call loads its own feature once more than its body does, which is once too often exactly
    -- when the body has loaded it.
    · subst same
      simp only [History.loaded, Call.loads, History.Reenters, List.nil_append, List.count_append,
        List.count_singleton_self, List.mem_singleton, and_true, false_or, not_or]
      by_cases member : other ∈ within.loaded
      · have := List.count_pos_iff.2 member
        simp only [member, not_true, and_false, iff_false]
        omega
      · rw [List.count_eq_zero_of_not_mem member] at inside ⊢
        simp only [member, not_false_iff, and_true]
        simpa using inside
    · simpa [History.loaded, Call.loads, History.Reenters, same, List.count_singleton,
        Ne.symm same] using inside

end Accounted

theorem Tables.Inserted.features_eq {t after : Tables} (inserted : t.Inserted after) :
    after.features = t.features := by
  cases inserted with
  | @write after key data done =>
    unfold Tables.write at done
    cases checked : t.checkInsert key with
    | error fault =>
      rw [checked] at done
      cases done
    | ok =>
      rw [checked] at done
      cases done
      rfl
  | register key given =>
    unfold Tables.register
    cases t.checkInsert key with
    | error fault => rfl
    | ok => cases given <;> rfl
  | removeHook key => rfl
  | registerHook done => rfl

theorem Evolves.accounted {w after : World} (evolves : Evolves w after) :
    ∃ since, Accounted w after since := by
  induction evolves with
  | aside tables host files history started => exact ⟨_, .aside (by rw [tables]) history⟩
  | host changed => exact ⟨_, .aside rfl rfl⟩
  | insert inserted => exact ⟨_, .aside inserted.features_eq rfl⟩
  | trans first rest left right =>
    obtain ⟨before, left⟩ := left
    obtain ⟨later, right⟩ := right
    exact ⟨_, left.trans right⟩
  | @source w after filename data ended body ih =>
    obtain ⟨within, inner⟩ := ih
    exact ⟨_, Accounted.call (w := w) inner rfl rfl (.source filename data) ended rfl rfl rfl⟩
  | @hook w after key hook ended body ih =>
    obtain ⟨within, inner⟩ := ih
    exact ⟨_, Accounted.call (w := w) inner rfl rfl (.hook key hook) ended rfl rfl rfl⟩
  | @load w after key ended body ih =>
    obtain ⟨within, inner⟩ := ih
    exact ⟨_, Accounted.call (w := w) inner rfl rfl (.load key) ended rfl rfl rfl⟩
  | require feature unknown body ih =>
    obtain ⟨within, inner⟩ := ih
    exact ⟨_, inner.require unknown rfl rfl⟩
  | @requireFailed w after feature raised unknown body ih =>
    obtain ⟨within, inner⟩ := ih
    exact ⟨_, Accounted.call (w := w) inner rfl rfl (.require feature) (.error raised) rfl rfl rfl⟩
  | @requireAgain w feature known =>
    have idle : Accounted w.forCall w.forCall .nothing := .aside rfl rfl
    exact ⟨_, Accounted.call (w := w) idle rfl rfl (.require feature)
      (.ok (.outcome .alreadyLoaded)) rfl rfl rfl⟩

/-- The second world comes out of the first one by the given calls, and what they loaded is all
that is new in the registry. -/
structure Registered (w after : World) (since : History) : Prop where
  history : after.history = w.history ++ since
  features : after.tables.features = since.loaded.foldl Registry.mark w.tables.features
  kept : w.tables.features.loaded <+: after.tables.features.loaded

theorem Evolves.registered {w after : World} {since : History} (evolves : Evolves w after)
    (history : after.history = w.history ++ since) : Registered w after since := by
  obtain ⟨calls, accounted⟩ := evolves.accounted
  have same : calls = since := by
    rw [accounted.history] at history
    exact History.append_left_cancel history
  rw [same] at accounted
  refine ⟨history, accounted.features, ?_⟩
  rw [accounted.features]
  exact Registry.prefix_foldl_mark _ _

namespace Session

theorem run_registers (setup : Setup) (steps : List Step) (w : World) :
    (Session.run setup steps w.fresh).2.tables.features.loaded =
      (Session.run setup steps w.fresh).2.history.loaded.eraseDups := by
  obtain ⟨since, accounted⟩ := (run_evolves setup steps w.fresh).accounted
  rw [accounted.features, accounted.history]
  simp only [World.fresh, History.nothing_append]
  exact Registry.loaded_foldl_mark since.loaded

/-- After a session the registry holds the features of the requires that loaded theirs, in order of
return and without repeats. The same goes for every step, require and load on the way: a require
that fails leaves what was loaded inside it, and so does a load, which calls what stands at its key
whether or not that is registered. -/
theorem registry_eq_loaded (setup : Setup) :
    (∀ (steps : List Step) (w : World),
      (Session.run setup steps w.fresh).2.tables.features.loaded =
        (Session.run setup steps w.fresh).2.history.loaded.eraseDups) ∧
    (∀ (depth : Nat) (st : Step) (w : World), ∃ since,
      Registered w (step (runScript setup depth) setup st w).2 since) ∧
    (∀ (depth : Nat) (s : Store) (path : GivenPath) (w : World), ∃ since,
      Registered w (s.require (runScript setup depth) path w).2 since ∧
      Store.RequireEnds (s.featureOf path w).1 w (s.require (runScript setup depth) path w).1
        since) ∧
    (∀ (depth : Nat) (s : Store) (path : GivenPath) (w : World), ∃ since,
      Registered w (s.load (runScript setup depth) path w).2 since ∧
      Store.LoadEnds (s.target path w).1 (s.load (runScript setup depth) path w).1 since) ∧
    (∀ (s : Store) (path : GivenPath) (w : World) (features : Registry),
      (s.target path { w with tables := { w.tables with features := features } }).1 =
        (s.target path w).1) := by
  refine ⟨run_registers setup, ?_, ?_, ?_, ?_⟩
  · intro depth st w
    have evolves := step_evolving (runScript_evolving setup depth) setup st w
    obtain ⟨since, accounted⟩ := evolves.accounted
    exact ⟨since, evolves.registered accounted.history⟩
  · intro depth s path w
    obtain ⟨since, history, ends⟩ := s.require_ends (runScript setup depth) path w
    have evolves := s.require_evolving (runScript_evolving setup depth) path w
    exact ⟨since, evolves.registered history, ends⟩
  · intro depth s path w
    obtain ⟨since, history, ends⟩ := s.load_ends (runScript setup depth) path w
    have evolves := s.load_evolving (runScript_evolving setup depth) path w
    exact ⟨since, evolves.registered history, ends⟩
  · intro s path w features
    exact (s.target_looks path).answer ⟨rfl, rfl, rfl, rfl⟩

example :
    (Session.run
      ⟨⟨.posix, ("/" : Text), .memory⟩,
        [(("a" : Text), [[⟨⟨.whole, .require (.text ("b.rb" : Text))⟩, false⟩]])], []⟩
      [⟨.whole, .write (.text ("a.rb" : Text)) (.bytes (Bytes.ofString "@a"))⟩,
        ⟨.whole, .write (.text ("b.rb" : Text)) (.bytes [])⟩,
        ⟨.whole, .require (.text ("a.rb" : Text))⟩] {}).2.tables.features.loaded =
      [Bytes.ofString "/b.rb", Bytes.ofString "/a.rb"] := by
  decide +kernel

/-- A feature is loaded more than once in a session exactly when it is loaded from inside a body
that is run to load it. -/
theorem loaded_once_iff (setup : Setup) (steps : List Step) (w : World) (feature : Key) :
    (Session.run setup steps w.fresh).2.history.loaded.count feature ≤ 1 ↔
      ¬(Session.run setup steps w.fresh).2.history.Reenters feature := by
  obtain ⟨since, accounted⟩ := (run_evolves setup steps w.fresh).accounted
  rw [accounted.history]
  simp only [World.fresh, History.nothing_append]
  exact accounted.once feature

def circular : Setup where
  store := ⟨.posix, Flavor.posix.loadRoot, .memory⟩
  scripts := [(("a" : Text), [[⟨⟨.whole, .require (.text ("a.rb" : Text))⟩, false⟩], []])]

theorem circular_loaded_twice :
    ¬∀ feature, (Session.run circular
      [⟨.whole, .write (.text ("a.rb" : Text)) (.bytes (Bytes.ofString "@a"))⟩,
        ⟨.whole, .require (.text ("a.rb" : Text))⟩]
      (World.fresh {})).2.history.loaded.count feature ≤ 1 := by
  intro once
  have twice := once (Bytes.ofString "/artichoke/virtual_root/src/lib/a.rb")
  revert twice
  decide +kernel

end Session

end Loadable
