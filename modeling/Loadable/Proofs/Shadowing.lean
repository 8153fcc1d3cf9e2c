import Loadable.Proofs.Finality
import Loadable.Proofs.FirstMatch
/-!
Files of one name under several roots of a search path. A require asks the registry about the name
under every root before it looks for the file, so the answer can come from a root that does not serve
the name.
-/
namespace Loadable

namespace Store

variable {s : Store} {path : GivenPath} {root other : Text} {roots : List Text} {key feature : Key}
  {w : World}

theorem isRequired_unresolved {raised : Raised}
    (failed : (s.nativeAt root).ownKey path = .error raised) (w : World) :
    ((s.nativeAt root).isRequired path w).1 = .error raised := by
  change ((Act.of ((s.nativeAt root).ownKey path) >>= _) w).1 = _
  rw [failed]
  rfl

theorem isRequired_native (resolved : (s.nativeAt root).ownKey path = .ok key) (w : World) :
    ((s.nativeAt root).isRequired path w).1 =
      match w.host.featureKey s.flavor key with
      | .error mishap => .error (.mishap mishap)
      | .ok feature => .ok (w.tables.features.isLoaded feature) := by
  rw [(leadsTo_ownKey (.inr rfl) resolved).isRequired_eq]
  change ((Act.ofMishap (w.host.featureKey s.flavor key) >>= _) w).1 = _
  cases w.host.featureKey s.flavor key <;> rfl

theorem registeredIn_eq (s : Store) (path : GivenPath) (roots : List Text) (w : World) :
    (s.registeredIn path roots w).1.map Option.isSome =
      firstYes (fun root => ((s.nativeAt root).isRequired path w).1) roots := by
  refine map_isSome_eq_firstYes (fun roots => (s.registeredIn path roots w).1) rfl ?_ roots
  intro root rest
  cases resolved : (s.nativeAt root).ownKey path with
  | error raised =>
    refine .inl ⟨raised, isRequired_unresolved resolved w, ?_⟩
    rw [registeredIn, resolved]
    rfl
  | ok key =>
    rw [registeredIn_cons resolved, isRequired_native resolved]
    cases w.host.featureKey s.flavor key with
    | error mishap => exact .inl ⟨_, rfl, rfl⟩
    | ok feature =>
      simp only
      cases w.tables.features.isLoaded feature with
      | true => exact .inr (.inl ⟨rfl, _, rfl⟩)
      | false => exact .inr (.inr ⟨rfl, rfl⟩)

theorem isRequired_later {setup : Setup} {v : World} {yes : Bool}
    (answer : ((s.nativeAt root).isRequired path w).1 = .ok yes) (later : Later setup w v)
    (host : v.host = w.host) :
    ∃ still, ((s.nativeAt root).isRequired path v).1 = .ok still ∧ (yes = true → still = true) := by
  cases resolved : (s.nativeAt root).ownKey path with
  | error raised =>
    rw [isRequired_unresolved resolved] at answer
    cases answer
  | ok key =>
    rw [isRequired_native resolved] at answer
    rw [isRequired_native resolved, host]
    cases named : w.host.featureKey s.flavor key with
    | error mishap =>
      rw [named] at answer
      cases answer
    | ok feature =>
      rw [named] at answer
      cases answer
      exact ⟨_, rfl, later.isLoaded⟩

/-- A root in the way of the right answer about a feature: none before it has the path required, and
it has, though the feature itself is not registered; or it refuses the path, though the feature is. -/
def Misleads (s : Store) (roots : List Text) (path : GivenPath) (w : World) (feature : Key)
    (other : Text) : Prop :=
  ∃ before after, roots = before ++ other :: after ∧
    (∀ root ∈ before, ((s.nativeAt root).isRequired path w).1 = .ok false) ∧
    match ((s.nativeAt other).isRequired path w).1 with
    | .ok yes => yes = true ∧ w.tables.features.isLoaded feature = false
    | .error _ => w.tables.features.isLoaded feature = true

section SearchPath

variable (kind : s.backend = .searchPath roots)

include kind

theorem isRequired_eq_firstYes (w : World) : (s.isRequired path w).1 =
    firstYes (fun root => ((s.nativeAt root).isRequired path w).1) roots := by
  rw [isRequired_searchPath kind, registeredIn_eq]

theorem require_alreadyLoaded (run : ScriptRunner) (required : (s.isRequired path w).1 = .ok true) :
    ∃ log feature, s.require run path w = (.ok .alreadyLoaded, { w with
      log := log
      history := w.history.call (.require feature) .nothing (.ok (.outcome .alreadyLoaded)) }) := by
  rw [isRequired_searchPath kind] at required
  rw [require_searchPath kind]
  cases asked : (s.registeredIn path roots w).1 with
  | error raised => simp [asked, Except.map] at required
  | ok registered =>
    cases registered with
    | none => simp [asked, Except.map] at required
    | some registered => exact ⟨_, registered.2, rfl⟩

theorem require_first (run : ScriptRunner) (unrequired : (s.isRequired path w).1 = .ok false)
    (first : s.IsFirst roots path w root) (resolved : (s.nativeAt root).ownKey path = .ok key) :
    s.require run path w = (s.nativeAt root).requireKey run key (s.logFound root key w).2 := by
  obtain ⟨own, same, _, found⟩ := findIn_isFirst first
  rw [resolved] at same
  cases same
  have searched := findOrRaise_ok.2 found
  rw [isRequired_searchPath kind] at unrequired
  rw [require_searchPath kind]
  cases asked : (s.registeredIn path roots w).1 with
  | error raised => simp [asked, Except.map] at unrequired
  | ok registered =>
    cases registered with
    | some registered => simp [asked, Except.map] at unrequired
    | none => simp only [Act.bind_apply, searched]

/-- What the answer of the registry has to do with the file that the path stands for. -/
theorem alreadyLoaded_iff (member : root ∈ roots)
    (resolved : (s.nativeAt root).ownKey path = .ok key)
    (named : w.host.featureKey s.flavor key = .ok feature) (run : ScriptRunner) :
    ((s.require run path w).1 = .ok .alreadyLoaded ↔
      w.tables.features.isLoaded feature = true) ↔ ¬∃ other, s.Misleads roots path w feature other := by
  have own : ((s.nativeAt root).isRequired path w).1 =
      .ok (w.tables.features.isLoaded feature) := by
    rw [isRequired_native resolved, named]
  rw [← isRequired_iff_alreadyLoaded kind run w, isRequired_eq_firstYes kind]
  constructor
  · rintro lawful ⟨other, before, after, split, none, wrong⟩
    cases answer : ((s.nativeAt other).isRequired path w).1 with
    | ok said =>
      rw [answer] at wrong
      obtain ⟨rfl, unknown⟩ := wrong
      have yes : firstYes (fun root => ((s.nativeAt root).isRequired path w).1) roots = .ok true := by
        rw [split]
        exact firstYes_append none answer nofun
      rw [lawful.1 yes] at unknown
      cases unknown
    | error raised =>
      rw [answer] at wrong
      have refused : firstYes (fun root => ((s.nativeAt root).isRequired path w).1) roots =
          .error raised := by
        rw [split]
        exact firstYes_append none answer nofun
      rw [lawful.2 wrong] at refused
      cases refused
  · intro straight
    constructor
    · intro yes
      obtain ⟨before, other, after, split, none, answer⟩ := firstYes_first yes nofun
      apply Bool.of_not_eq_false
      intro unknown
      apply straight
      exact ⟨other, before, after, split, none, by rw [answer]; exact ⟨rfl, unknown⟩⟩
    · intro known
      rw [known] at own
      cases asked : firstYes (fun root => ((s.nativeAt root).isRequired path w).1) roots with
      | ok said =>
        cases said with
        | true => rfl
        | false =>
          have no := firstYes_no_iff.1 asked root member
          rw [own] at no
          cases no
      | error raised =>
        obtain ⟨before, other, after, split, none, answer⟩ := firstYes_first asked nofun
        refine absurd ⟨other, before, after, split, none, ?_⟩ straight
        rw [answer]
        exact known

theorem isRequired_kept {setup : Setup} {v : World} (member : other ∈ roots)
    (required : ((s.nativeAt other).isRequired path w).1 = .ok true)
    (answers : ∀ root ∈ roots, ∃ yes, ((s.nativeAt root).isRequired path w).1 = .ok yes)
    (later : Later setup w v) (host : v.host = w.host) : (s.isRequired path v).1 = .ok true := by
  rw [isRequired_eq_firstYes kind]
  apply firstYes_of_mem _ member
  · obtain ⟨still, answer, kept⟩ := isRequired_later required later host
    rw [answer, kept rfl]
  · intro root among
    obtain ⟨yes, answer⟩ := answers root among
    obtain ⟨still, answer, _⟩ := isRequired_later answer later host
    exact ⟨still, answer⟩

/-- A require of a path says that it is already loaded just when the file that the path stands for is
registered, unless a root misleads it: one that has another file of that name registered, or that
refuses the path first. If no root has the path required the file is run. But once the file of another
root is registered, none of that name is ever run for the path again. -/
theorem alreadyLoaded_unless_misled (first : s.IsFirst roots path w root)
    (resolved : (s.nativeAt root).ownKey path = .ok key)
    (named : w.host.featureKey s.flavor key = .ok feature) (run : ScriptRunner) :
    (((s.require run path w).1 = .ok .alreadyLoaded ↔
        w.tables.features.isLoaded feature = true) ↔
      ¬∃ other, s.Misleads roots path w feature other) ∧
    ((s.isRequired path w).1 = .ok false →
      s.require run path w = (s.nativeAt root).requireKey run key (s.logFound root key w).2) ∧
    (∀ other ∈ roots, ((s.nativeAt other).isRequired path w).1 = .ok true →
      (∀ root ∈ roots, ∃ yes, ((s.nativeAt root).isRequired path w).1 = .ok yes) →
      ∀ setup v, Later setup w v → v.host = w.host →
        ∃ log feature, s.require run path v = (.ok .alreadyLoaded, { v with
          log := log
          history := v.history.call (.require feature) .nothing
            (.ok (.outcome .alreadyLoaded)) })) := by
  have member : root ∈ roots := by
    obtain ⟨before, after, rfl, _⟩ := first
    simp
  refine ⟨alreadyLoaded_iff kind member resolved named run, ?_, ?_⟩
  · intro unrequired
    exact require_first kind run unrequired first resolved
  · intro other among required answers setup v later host
    exact require_alreadyLoaded kind run (isRequired_kept kind among required answers later host)

end SearchPath

def twoRoots : Store :=
  ⟨.posix, ("/a" : Text), .searchPath [("/a" : Text), ("/b" : Text)]⟩

def twoFiles : World where
  host :=
    { nodes := [
        ([Bytes.ofString "a"], .directory 0o755),
        ([Bytes.ofString "a", Bytes.ofString "x.rb"], .file (Bytes.ofString "first") 0o644),
        ([Bytes.ofString "b"], .directory 0o755),
        ([Bytes.ofString "b", Bytes.ofString "x.rb"], .file (Bytes.ofString "second") 0o644)] }

/-- The file of the first root is run, as long as that of the second one is not required. -/
theorem first_file_runs :
    twoRoots.IsFirst [("/a" : Text), ("/b" : Text)] (.text ("x.rb" : Text)) twoFiles ("/a" : Text) ∧
      (twoRoots.require (fun _ => pure ()) (.text ("x.rb" : Text)) twoFiles).1 = .ok .loaded := by
  have first : twoRoots.IsFirst [("/a" : Text), ("/b" : Text)] (.text ("x.rb" : Text)) twoFiles
      ("/a" : Text) :=
    isFirst_cons (by decide +kernel)
  have resolved : (twoRoots.nativeAt ("/a" : Text)).ownKey (.text ("x.rb" : Text)) =
      .ok (Bytes.ofString "/a/x.rb") := by decide +kernel
  have named : twoFiles.host.featureKey twoRoots.flavor (Bytes.ofString "/a/x.rb") =
      .ok (Bytes.ofString "/a/x.rb") := by decide +kernel
  obtain ⟨_, runs, _⟩ := alreadyLoaded_unless_misled rfl first resolved named (fun _ => pure ())
  refine ⟨first, ?_⟩
  rw [runs (by decide +kernel)]
  decide +kernel

/-- When the second root's file has been required by its absolute path, the name still stands for the
first root's file, which is not registered; but a require of it says that it is already loaded. -/
theorem second_file_answers :
    let path : GivenPath := .text ("x.rb" : Text)
    let file := Bytes.ofString "/a/x.rb"
    let run : ScriptRunner := fun _ => pure ()
    let w := (twoRoots.require run (.text ("/b/x.rb" : Text)) twoFiles).2
    twoRoots.IsFirst [("/a" : Text), ("/b" : Text)] path w ("/a" : Text) ∧
      (twoRoots.nativeAt ("/a" : Text)).ownKey path = .ok file ∧
      w.host.featureKey twoRoots.flavor file = .ok file ∧
      ¬((twoRoots.require run path w).1 = .ok .alreadyLoaded ↔
        w.tables.features.isLoaded file = true) := by
  intro path file run w
  refine ⟨isFirst_cons ?_, ?_, ?_, ?_⟩
  all_goals decide +kernel

end Store

end Loadable
