import Loadable.Proofs.Shadowing
/-!
When requiring by name finds nothing. A search path answers for a name with the first root that has
it, and an interpreter that is told of a directory there does not look into the other roots.
-/
namespace Loadable

def Raised.IsMissing : Raised → Prop
  | .fault f => f.report.kind = .notFound
  | .mishap _ => False

namespace Act

variable {α β : Type}

def Finds (x : Act α) (w : World) : Prop :=
  ∀ raised, (x w).1 = .error raised → ¬raised.IsMissing

namespace Finds

variable {x : Act α} {w : World}

theorem ok {a : α} (done : (x w).1 = .ok a) : Finds x w := by
  intro raised failed
  rw [done] at failed
  cases failed

theorem of {result : Except Raised α}
    (harmless : ∀ raised, result = .error raised → ¬raised.IsMissing) : Finds (Act.of result) w := by
  intro raised failed
  cases result with
  | ok a => cases failed
  | error other =>
    cases failed
    exact harmless raised rfl

theorem ofMishap (result : Except Mishap α) (w : World) : Finds (Act.ofMishap result) w := by
  intro raised failed
  cases result with
  | ok a => cases failed
  | error mishap =>
    cases failed
    exact not_false

theorem bind {f : α → Act β} (first : Finds x w)
    (rest : ∀ a after, x w = (.ok a, after) → Finds (f a) after) : Finds (x >>= f) w := by
  intro raised failed
  rw [bind_apply] at failed
  cases ran : x w with
  | mk result after =>
    cases result with
    | error other =>
      rw [ran] at failed
      cases failed
      exact first raised (by rw [ran])
    | ok a =>
      rw [ran] at failed
      exact rest a after ran raised failed

theorem of_eq {y : Act α} {v : World} (same : x w = y v) (finds : Finds y v) : Finds x w := by
  unfold Finds
  rw [same]
  exact finds

theorem recorded (inner : Finds x w.forCall) (made : Call) (answer : α → Answer) :
    Finds (Act.recorded made answer x) w :=
  inner

theorem asFile {filename : Text} (inner : Finds x { w with files := filename :: w.files }) :
    Finds (Act.asFile filename x) w :=
  inner

end Finds

end Act

open Act (Finds)

namespace Host

variable {host : Host} {key : Key}

/-- What exists is refused for other reasons, if it is refused. -/
theorem readFile_error {failure : HostFailure} (there : host.pathExists key = true)
    (failed : host.readFile key = .error failure) : failure = .denied ∨ failure = .isDirectory := by
  simp only [pathExists, Bool.and_eq_true] at there
  unfold readFile at failed
  split at failed
  · cases failed
    exact .inl rfl
  · cases found : host.stat key with
    | error other =>
      rw [found] at there
      cases there.2
    | ok spot =>
      obtain ⟨place, node⟩ := spot
      simp only [found] at failed
      split at failed
      · cases failed
        exact .inl rfl
      · cases node <;> cases failed <;> exact .inr rfl

theorem readKey_error {raised : Raised} (there : host.pathExists key = true)
    (failed : host.readKey key = .error raised) : ¬raised.IsMissing := by
  have free : hasNul key = false := by
    simp only [pathExists, Bool.and_eq_true, Bool.not_eq_true'] at there
    exact there.1
  simp only [readKey, free, Bool.false_eq_true, if_false] at failed
  cases read : host.readFile key with
  | ok data =>
    rw [read] at failed
    cases failed
  | error failure =>
    rw [read] at failed
    rcases readFile_error there read with rfl | rfl <;>
      simp only at failed <;> split at failed <;> cases failed <;> exact fun missing => nomatch missing

end Host

/-- Scripts are left out: what is found missing then is missing before anything is run. -/
def noScripts : ScriptRunner :=
  fun _ => pure ()

theorem evaluate_finds (source : Bytes) (filename : Text) (w : World) :
    Finds (evaluate noScripts source filename) w := by
  have body : ∀ v, Finds (runSource noScripts source filename) v := by
    refine fun v => .bind (.ok rfl) fun _ after _ => ?_
    cases scriptOf? source <;> exact .ok rfl
  exact .bind ((body _).recorded _ _).asFile fun _ after _ => .ok rfl

namespace Store

variable {s : Store} {path : GivenPath} {root : Text} {roots : List Text} {key : Key} {w : World}

theorem ownKey_error {raised : Raised} (failed : s.ownKey path = .error raised) :
    ¬raised.IsMissing := by
  unfold ownKey at failed
  split at failed
  · cases failed
    exact not_false
  · split at failed
    · cases failed
      exact fun missing => nomatch missing
    · cases failed

theorem findIn_finds (s : Store) (path : GivenPath) (roots : List Text) (w : World) :
    Finds (s.findIn path roots) w := by
  induction roots generalizing w with
  | nil => exact .ok rfl
  | cons root roots ih =>
    refine .bind (.of fun _ => ownKey_error) fun key after _ => .bind (.ok rfl) fun found last _ => ?_
    cases found with
    | true => exact .ok rfl
    | false => exact ih last

theorem registeredIn_finds (s : Store) (path : GivenPath) (roots : List Text) (w : World) :
    Finds (s.registeredIn path roots) w := by
  induction roots generalizing w with
  | nil => exact .ok rfl
  | cons root roots ih =>
    refine .bind (.of fun _ => ownKey_error) fun key after _ =>
      .bind (.bind (.ok rfl) fun seen last _ => .ofMishap _ last) fun feature last _ =>
        .bind (.ok rfl) fun seen last _ => ?_
    split
    · exact .ok rfl
    · exact ih last

theorem execute_finds (there : hasKey key w = true) :
    Finds ((s.nativeAt root).execute noScripts key) w := by
  cases held : w.tables.hooks.get? key with
  | some hook => exact .of_eq (execute_hook _ _ held) (.ok rfl)
  | none =>
    have stands : w.host.pathExists key = true := by
      simpa [hasKey, KeyMap.contains, held] using there
    have read : Finds ((s.nativeAt root).readKey key) w := by
      refine .bind (.ok rfl) fun seen after asked => .of fun raised failed => ?_
      cases asked
      exact Host.readKey_error stands failed
    exact .of_eq (execute_source _ _ held) (.bind read fun source after _ =>
      .bind (evaluate_finds source _ after) fun _ last _ => .ok rfl)

theorem requireKey_finds (there : hasKey key w = true) :
    Finds ((s.nativeAt root).requireKey noScripts key) w := by
  refine .bind (.bind (.ok rfl) fun seen after _ => .ofMishap _ after) fun feature after asked => ?_
  have unchanged := (OnHost.featureKey_looks _ key).quiet.eq_log asked
  have still : hasKey key after.forCall = true := by
    rw [unchanged]
    exact there
  refine .recorded (.bind (.ok rfl) fun seen last ran => ?_) _ _
  cases ran
  split
  · exact .ok rfl
  · refine .bind (execute_finds still) fun _ last _ => .bind ?_ fun _ last _ => .ok rfl
    obtain ⟨log, marked⟩ := markLoaded_apply feature last
    exact .ok (by rw [marked])

theorem findIn_eq (s : Store) (path : GivenPath) (roots : List Text) (w : World) :
    (s.findIn path roots w).1.map Option.isSome =
      firstYes (fun root => ((s.nativeAt root).contains path w).1) roots := by
  refine map_isSome_eq_firstYes (fun roots => (s.findIn path roots w).1) rfl ?_ roots
  intro root rest
  cases resolved : (s.nativeAt root).ownKey path with
  | error raised =>
    refine .inl ⟨raised, contains_unresolved resolved w, ?_⟩
    rw [findIn, resolved]
    rfl
  | ok key =>
    rw [findIn_cons resolved, contains_native resolved]
    cases hasKey key w with
    | true => exact .inr (.inl ⟨rfl, _, rfl⟩)
    | false => exact .inr (.inr ⟨rfl, rfl⟩)

section SearchPath

variable (kind : s.backend = .searchPath roots)

include kind

theorem contains_eq_firstYes (w : World) : (s.contains path w).1 =
    firstYes (fun root => ((s.nativeAt root).contains path w).1) roots := by
  rw [← findIn_eq]
  simp only [contains, kind, Act.bind_apply]
  cases s.findIn path roots w with
  | mk result after => cases result <;> rfl

theorem contains_no_iff : (s.contains path w).1 = .ok false ↔ s.NoneHas roots path w := by
  rw [contains_eq_firstYes kind]
  exact firstYes_no_iff

theorem contains_yes_iff :
    (s.contains path w).1 = .ok true ↔ ∃ root, s.IsFirst roots path w root := by
  rw [contains_eq_firstYes kind]
  constructor
  · intro found
    obtain ⟨before, root, after, split, none, there⟩ := firstYes_first found nofun
    exact ⟨root, before, after, split, none, there⟩
  · rintro ⟨root, before, after, rfl, none, there⟩
    exact firstYes_append none there nofun

theorem isDirectory_first (first : s.IsFirst roots path w root) :
    (s.isDirectory path w).1 = ((s.nativeAt root).isDirectory path w).1 := by
  obtain ⟨key, resolved, _, found⟩ := findIn_isFirst first
  rw [(leadsTo_ownKey (.inr rfl) resolved).isDirectory_eq]
  simp only [isDirectory, kind, Act.bind_apply, found]
  rfl

theorem contains_finds (w : World) : Finds (s.contains path) w := by
  simp only [Finds, contains, kind]
  exact Finds.bind (s.findIn_finds path roots w) fun _ after _ => .ok rfl

theorem isDirectory_finds (w : World) : Finds (s.isDirectory path) w := by
  simp only [Finds, isDirectory, kind]
  refine Finds.bind (s.findIn_finds path roots w) fun found after _ => ?_
  cases found <;> exact .ok rfl

theorem isRequired_finds (w : World) : Finds (s.isRequired path) w := by
  simp only [Finds, isRequired, kind]
  exact Finds.bind (s.registeredIn_finds path roots w) fun _ after _ => .ok rfl

theorem require_finds (unrequired : (s.isRequired path w).1 = .ok false)
    (there : (s.contains path w).1 = .ok true) : Finds (s.require noScripts path) w := by
  obtain ⟨root, first⟩ := (contains_yes_iff kind).1 there
  obtain ⟨key, resolved, present, _⟩ := findIn_isFirst first
  exact .of_eq (require_first kind noScripts unrequired first resolved) (requireKey_finds present)

end SearchPath

end Store

namespace Interpreter

variable {s : Store} {roots : List Text} (kind : s.backend = .searchPath roots)
  {given : GivenPath} {name : Text} {w : World}

include kind

/-- For a search path the candidate is missing if no root has it, or the first one that has it has a
directory. -/
theorem missing_iff {candidate : Text} : Missing s candidate w ↔
    s.NoneHas roots (.text candidate) w ∨ ∃ root, s.IsFirst roots (.text candidate) w root ∧
      ((s.nativeAt root).isDirectory (.text candidate) w).1 = .ok true := by
  rw [Missing, Store.contains_no_iff kind, Store.contains_yes_iff kind]
  constructor
  · rintro (none | ⟨⟨root, first⟩, directory⟩)
    · exact .inl none
    · rw [Store.isDirectory_first kind first] at directory
      exact .inr ⟨root, first, directory⟩
  · rintro (none | ⟨root, first, directory⟩)
    · exact .inl none
    · rw [← Store.isDirectory_first kind first] at directory
      exact .inr ⟨⟨root, first⟩, directory⟩

/-- The candidate is not required, and no root has it, or the first one that has it has a directory. -/
def PassedOver (s : Store) (roots : List Text) (w : World) (candidate : Text) : Prop :=
  (s.isRequired (.text candidate) w).1 = .ok false ∧
    (s.NoneHas roots (.text candidate) w ∨ ∃ root, s.IsFirst roots (.text candidate) w root ∧
      ((s.nativeAt root).isDirectory (.text candidate) w).1 = .ok true)

/-- Whatever scripts do, a require of the name says that there is no such file. -/
def FindsNothing (s : Store) (given : GivenPath) (w : World) : Prop :=
  ∃ fault, fault.report.kind = .notFound ∧
    ∀ run, (Interpreter.require run s given w).1 = .error (.fault fault)

theorem passedOver_iff :
    (∀ candidate ∈ featureCandidates name, PassedOver s roots w candidate) ↔
      (anyRequired s (featureCandidates name) w).1 = .ok false ∧
        (firstFile s (featureCandidates name) w).1 = .ok none := by
  rw [anyRequired_eq, firstYes_no_iff, firstFile_none_iff, ← forall₂_and]
  simp only [PassedOver, missing_iff kind]

theorem requireName_finds
    (found : ¬∀ candidate ∈ featureCandidates name, PassedOver s roots w candidate) :
    Finds (requireName noScripts s name) w := by
  intro raised failed
  obtain ⟨log, answers⟩ := requireName_eq s name w
  rw [answers] at failed
  rw [passedOver_iff kind] at found
  cases asked : (anyRequired s (featureCandidates name) w).1 with
  | error other =>
    rw [asked] at failed
    cases failed
    rw [anyRequired_eq] at asked
    obtain ⟨before, candidate, after, _, _, refused⟩ := firstYes_first asked nofun
    exact Store.isRequired_finds kind w raised refused
  | ok required =>
    rw [asked] at failed
    cases required with
    | true => cases failed
    | false =>
      cases searched : (firstFile s (featureCandidates name) w).1 with
      | error other =>
        rw [searched] at failed
        cases failed
        obtain ⟨candidate, _, refused | refused⟩ := firstFile_error searched
        · exact Store.contains_finds kind w raised refused
        · exact Store.isDirectory_finds kind w raised refused
      | ok found =>
        rw [searched] at failed
        cases found with
        | none => exact absurd ⟨asked, searched⟩ found
        | some candidate =>
          obtain ⟨member, there, _⟩ := firstFile_some searched
          rw [anyRequired_eq] at asked
          have unrequired := firstYes_no_iff.1 asked candidate member
          have noted : ({ w with log := log } : World).stored = w.stored := rfl
          rw [← (s.isRequired_consults _).answer noted] at unrequired
          rw [← (s.contains_looks _).consults.answer noted] at there
          have ran := Store.require_finds kind unrequired there
          exact (ran.bind fun outcome after _ => .ok rfl) raised failed

section Given

variable (usable : given.asText = .ok name)

include usable

theorem require_passedOver
    (passed : ∀ candidate ∈ featureCandidates name, PassedOver s roots w candidate) :
    ∃ log, ∀ run, Interpreter.require run s given w =
      (.error (.fault (.noCandidate name (featureCandidates name))), { w with log := log }) := by
  obtain ⟨unrequired, nothing⟩ := (passedOver_iff kind).1 passed
  obtain ⟨log, answers⟩ := requireName_eq s name w
  refine ⟨log, fun run => ?_⟩
  rw [require_eq_requireName usable, answers, unrequired, nothing]

theorem findsNothing_iff_passedOver : FindsNothing s given w ↔
    ∀ candidate ∈ featureCandidates name, PassedOver s roots w candidate := by
  constructor
  · rintro ⟨fault, absent, all⟩
    by_contra found
    have failed := all noScripts
    rw [require_eq_requireName usable] at failed
    exact requireName_finds kind found _ failed absent
  · intro passed
    obtain ⟨log, answers⟩ := require_passedOver kind usable passed
    exact ⟨_, rfl, fun run => by rw [answers]⟩

/-- An interpreter over a search path finds nothing for a name exactly when all candidates are passed
over, and says so. A directory in an early root is reason enough to pass over a candidate, whatever
later roots hold; but a candidate is not passed over if it is required, or if the first root that has
it has a file. -/
theorem findsNothing_iff (w : World) :
    (FindsNothing s given w ↔
      ∀ candidate ∈ featureCandidates name, PassedOver s roots w candidate) ∧
    ((∀ candidate ∈ featureCandidates name, PassedOver s roots w candidate) →
      ∃ log, ∀ run, Interpreter.require run s given w =
        (.error (.fault (.noCandidate name (featureCandidates name))), { w with log := log })) ∧
    (∀ candidate ∈ featureCandidates name,
      ((s.isRequired (.text candidate) w).1 = .ok true ∨
        ∃ root, s.IsFirst roots (.text candidate) w root ∧
          ((s.nativeAt root).isDirectory (.text candidate) w).1 = .ok false) →
      ¬FindsNothing s given w) := by
  refine ⟨findsNothing_iff_passedOver kind usable, require_passedOver kind usable, ?_⟩
  intro candidate member found nothing
  obtain ⟨unrequired, nowhere⟩ :=
    (findsNothing_iff_passedOver kind usable).1 nothing candidate member
  rw [← missing_iff kind] at nowhere
  rcases found with required | ⟨root, first, file⟩
  · rw [required] at unrequired
    cases unrequired
  · rw [← Store.isDirectory_first kind first] at file
    rcases nowhere with none | ⟨_, directory⟩
    · rw [(Store.contains_yes_iff kind).2 ⟨root, first⟩] at none
      cases none
    · rw [file] at directory
      cases directory

end Given

omit kind

def directoryFirst (bare : List (Place × Node)) : World where
  host :=
    { nodes := [
        ([Bytes.ofString "a"], .directory 0o755),
        ([Bytes.ofString "a", Bytes.ofString "x.rb"], .directory 0o755),
        ([Bytes.ofString "b"], .directory 0o755),
        ([Bytes.ofString "b", Bytes.ofString "x.rb"], .file (Bytes.ofString "second") 0o644)] ++ bare }

/-- The name is found without its extension, in the first root that has it so. -/
theorem bare_name_found :
    let w := directoryFirst [([Bytes.ofString "a", Bytes.ofString "x"], .file [] 0o644)]
    Store.twoRoots.IsFirst [("/a" : Text), ("/b" : Text)] (.text ("x" : Text)) w ("/a" : Text) ∧
      ¬FindsNothing Store.twoRoots (.text ("x" : Text)) w := by
  intro w
  have kind : Store.twoRoots.backend = .searchPath [("/a" : Text), ("/b" : Text)] := rfl
  have usable : (GivenPath.text ("x" : Text)).asText = .ok ("x" : Text) := rfl
  have first : Store.twoRoots.IsFirst [("/a" : Text), ("/b" : Text)] (.text ("x" : Text)) w
      ("/a" : Text) :=
    Store.isFirst_cons (by decide +kernel)
  obtain ⟨_, _, found⟩ := findsNothing_iff kind usable w
  exact ⟨first, found ("x" : Text) (by decide +kernel) (.inr ⟨_, first, by decide +kernel⟩)⟩

/-- The second root has a file for the name, yet the require of it finds nothing. -/
theorem directory_hides_file :
    let w := directoryFirst []
    let candidate : GivenPath := .text ("x.rb" : Text)
    ("x.rb" : Text) ∈ featureCandidates ("x" : Text) ∧
      ((Store.twoRoots.nativeAt ("/b" : Text)).contains candidate w).1 = .ok true ∧
      ((Store.twoRoots.nativeAt ("/b" : Text)).isDirectory candidate w).1 = .ok false ∧
      FindsNothing Store.twoRoots (.text ("x" : Text)) w := by
  intro w candidate
  have kind : Store.twoRoots.backend = .searchPath [("/a" : Text), ("/b" : Text)] := rfl
  have usable : (GivenPath.text ("x" : Text)).asText = .ok ("x" : Text) := rfl
  have candidates : featureCandidates ("x" : Text) = [("x.rb" : Text), ("x" : Text)] := by
    decide +kernel
  have directory : Store.twoRoots.IsFirst [("/a" : Text), ("/b" : Text)] candidate w ("/a" : Text) :=
    Store.isFirst_cons (by decide +kernel)
  have nowhere : Store.twoRoots.NoneHas [("/a" : Text), ("/b" : Text)] (.text ("x" : Text)) w := by
    rw [← Store.contains_no_iff kind]
    decide +kernel
  refine ⟨by decide +kernel, by decide +kernel, by decide +kernel, ?_⟩
  rw [findsNothing_iff_passedOver kind usable, candidates, List.forall_mem_cons,
    List.forall_mem_singleton]
  exact ⟨⟨by decide +kernel, .inr ⟨_, directory, by decide +kernel⟩⟩,
    ⟨by decide +kernel, .inl nowhere⟩⟩

end Interpreter

end Loadable
