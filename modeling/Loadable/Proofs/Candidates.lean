import Loadable.Proofs.Once
/-!
Requiring by name. The candidates of a name are gone through twice: is one of them required, and if
none is, which is the first that is a file. Each time the first answer that is not no ends the walk.
-/
namespace Loadable

section FirstYes

variable {α : Type} {ask : α → Except Raised Bool} {answer : Except Raised Bool} {a : α}
  {before after rest : List α}

def firstYes (ask : α → Except Raised Bool) : List α → Except Raised Bool
  | [] => .ok false
  | a :: rest =>
    match ask a with
    | .ok false => firstYes ask rest
    | answer => answer

theorem firstYes_cons_no (no : ask a = .ok false) : firstYes ask (a :: rest) = firstYes ask rest := by
  simp only [firstYes, no]

theorem firstYes_cons (decided : ask a ≠ .ok false) : firstYes ask (a :: rest) = ask a := by
  unfold firstYes
  split
  · contradiction
  · rfl

theorem firstYes_skip (no : ∀ b ∈ before, ask b = .ok false) :
    firstYes ask (before ++ rest) = firstYes ask rest := by
  induction before with
  | nil => rfl
  | cons b before ih =>
    rw [List.cons_append, firstYes_cons_no (no b List.mem_cons_self)]
    exact ih fun other member => no other (List.mem_cons_of_mem b member)

theorem firstYes_no_iff : firstYes ask rest = .ok false ↔ ∀ a ∈ rest, ask a = .ok false := by
  induction rest with
  | nil => simp [firstYes]
  | cons a rest ih =>
    rw [List.forall_mem_cons]
    by_cases no : ask a = .ok false
    · rw [firstYes_cons_no no, ih]
      simp only [no, true_and]
    · rw [firstYes_cons no]
      simp only [no, false_and]

theorem firstYes_first (asked : firstYes ask rest = answer) (decided : answer ≠ .ok false) :
    ∃ before a after, rest = before ++ a :: after ∧ (∀ b ∈ before, ask b = .ok false) ∧
      ask a = answer := by
  induction rest with
  | nil => exact absurd asked.symm decided
  | cons a rest ih =>
    by_cases no : ask a = .ok false
    · rw [firstYes_cons_no no] at asked
      obtain ⟨before, other, after, rfl, none, answered⟩ := ih asked
      refine ⟨a :: before, other, after, rfl, ?_, answered⟩
      exact List.forall_mem_cons.2 ⟨no, none⟩
    · rw [firstYes_cons no] at asked
      exact ⟨[], a, rest, rfl, fun b none => absurd none List.not_mem_nil, asked⟩

theorem firstYes_append (none : ∀ b ∈ before, ask b = .ok false) (answered : ask a = answer)
    (decided : answer ≠ .ok false) : firstYes ask (before ++ a :: after) = answer := by
  subst answered
  rw [firstYes_skip none, firstYes_cons decided]

theorem firstYes_of_mem (answers : ∀ b ∈ rest, ∃ yes, ask b = .ok yes) (member : a ∈ rest)
    (yes : ask a = .ok true) : firstYes ask rest = .ok true := by
  cases asked : firstYes ask rest with
  | error raised =>
    obtain ⟨before, b, after, rfl, _, failed⟩ := firstYes_first asked nofun
    obtain ⟨_, answered⟩ := answers b (by simp)
    rw [failed] at answered
    cases answered
  | ok said =>
    cases said with
    | true => rfl
    | false =>
      have no := firstYes_no_iff.1 asked a member
      rw [yes] at no
      cases no

theorem map_isSome_eq_firstYes {β : Type} (walk : List α → Except Raised (Option β))
    (nil : walk [] = .ok none)
    (cons : ∀ a rest, (∃ raised, ask a = .error raised ∧ walk (a :: rest) = .error raised) ∨
      (ask a = .ok true ∧ ∃ found, walk (a :: rest) = .ok (some found)) ∨
      (ask a = .ok false ∧ walk (a :: rest) = walk rest)) (rest : List α) :
    (walk rest).map Option.isSome = firstYes ask rest := by
  induction rest with
  | nil =>
    rw [nil]
    rfl
  | cons a rest ih =>
    rcases cons a rest with ⟨raised, refused, same⟩ | ⟨yes, found, same⟩ | ⟨no, same⟩
    · rw [same, firstYes_cons (by simp [refused]), refused]
      rfl
    · rw [same, firstYes_cons (by simp [yes]), yes]
      rfl
    · rw [same, firstYes_cons_no no, ih]

end FirstYes

namespace Act

variable {α β : Type}

/-- The act changes nothing but the log, and its answer depends on nothing but what is stored. -/
structure Consults (x : Act α) : Prop where
  quiet : Quiet x
  answer : ∀ {w v : World}, w.stored = v.stored → (x w).1 = (x v).1

theorem Looks.consults {x : Act α} (looks : Looks x) : Consults x :=
  ⟨looks.quiet, looks.of_stored⟩

namespace Consults

theorem bind {x : Act α} {f : α → Act β} (first : Consults x) (rest : ∀ a, Consults (f a)) :
    Consults (x >>= f) := by
  refine ⟨first.quiet.bind fun a => (rest a).quiet, ?_⟩
  intro w v same
  apply first.quiet.answer_bind (first.answer same)
  intro a log log'
  exact (rest a).answer same

theorem world_bind {f : World → Act β} (consults : ∀ w, Consults (f w))
    (same : ∀ {w v : World}, w.stored = v.stored → f w = f v) : Consults (Act.world >>= f) := by
  refine ⟨Quiet.world.bind fun w => (consults w).quiet, ?_⟩
  intro w v stored
  change (f w w).1 = (f v v).1
  rw [same stored]
  exact (consults v).answer stored

end Consults

end Act

open Act (Consults)

namespace Store

theorem registeredIn_consults (s : Store) (path : GivenPath) (roots : List Text) :
    Consults (s.registeredIn path roots) := by
  induction roots with
  | nil => exact (Act.Looks.pure none).consults
  | cons root roots ih =>
    rw [registeredIn]
    refine .bind (Act.Looks.of _).consults fun key =>
      .bind (OnHost.featureKey_looks _ key).consults fun feature => .world_bind (fun w => ?_) ?_
    · split
      · exact (Act.Looks.pure _).consults
      · exact ih
    · intro w v stored
      rw [(Stored.mk.inj stored).1]

theorem isRequired_consults (s : Store) (path : GivenPath) : Consults (s.isRequired path) := by
  unfold isRequired
  split
  · exact .bind (s.registeredIn_consults path _) fun _ => (Act.Looks.pure _).consults
  · refine .bind (s.resolve_looks path).consults fun key =>
      .bind (s.featureKey_looks key).consults fun feature =>
        .world_bind (fun w => (Act.Looks.pure _).consults) ?_
    intro w v stored
    rw [(Stored.mk.inj stored).1]

end Store

namespace Interpreter

variable {s : Store} {candidates : List Text} {candidate : Text} {w : World}

theorem anyRequired_eq (s : Store) (candidates : List Text) (w : World) :
    (anyRequired s candidates w).1 =
      firstYes (fun candidate => (s.isRequired (.text candidate) w).1) candidates := by
  induction candidates generalizing w with
  | nil => rfl
  | cons candidate candidates ih =>
    have kept := (s.isRequired_quiet (.text candidate)).stored w
    rw [anyRequired, Act.bind_apply]
    cases asked : s.isRequired (.text candidate) w with
    | mk result after =>
      rw [asked] at kept
      have same : (fun other => (s.isRequired (.text other) after).1) =
          fun other => (s.isRequired (.text other) w).1 :=
        funext fun other => (s.isRequired_consults (.text other)).answer kept
      match result with
      | .error raised => rw [firstYes_cons (by simp [asked]), asked]
      | .ok true =>
        rw [firstYes_cons (by simp [asked]), asked]
        rfl
      | .ok false =>
        rw [firstYes_cons_no (by rw [asked]), ← same]
        exact ih after

def Missing (s : Store) (candidate : Text) (w : World) : Prop :=
  (s.contains (.text candidate) w).1 = .ok false ∨
    ((s.contains (.text candidate) w).1 = .ok true ∧
      (s.isDirectory (.text candidate) w).1 = .ok true)

theorem firstFile_cons (s : Store) (candidate : Text) (candidates : List Text) (w : World) :
    (firstFile s (candidate :: candidates) w).1 =
      match (s.contains (.text candidate) w).1 with
      | .error raised => .error raised
      | .ok false => (firstFile s candidates w).1
      | .ok true =>
        match (s.isDirectory (.text candidate) w).1 with
        | .error raised => .error raised
        | .ok true => (firstFile s candidates w).1
        | .ok false => .ok (some candidate) := by
  have contains := s.contains_looks (.text candidate)
  have directory := s.isDirectory_looks (.text candidate)
  have rest := firstFile_looks s candidates
  rw [firstFile, Act.bind_apply]
  cases asked : s.contains (.text candidate) w with
  | mk result after =>
    have unchanged := contains.quiet.eq_log asked
    match result with
    | .error raised => rfl
    | .ok false =>
      apply rest.answer
      rw [unchanged]
      exact ⟨rfl, rfl, rfl, rfl⟩
    | .ok true =>
      have alike : after.Alike w := by
        rw [unchanged]
        exact ⟨rfl, rfl, rfl, rfl⟩
      simp only [if_true, ← directory.answer alike, ← rest.answer alike, Act.bind_apply]
      cases looked : s.isDirectory (.text candidate) after with
      | mk result last =>
        have later := directory.quiet.eq_log looked
        match result with
        | .error raised => rfl
        | .ok false => rfl
        | .ok true =>
          apply rest.answer
          rw [later]
          exact ⟨rfl, rfl, rfl, rfl⟩

theorem firstFile_none_iff :
    (firstFile s candidates w).1 = .ok none ↔ ∀ candidate ∈ candidates, Missing s candidate w := by
  induction candidates with
  | nil => simp [firstFile]
  | cons candidate candidates ih =>
    rw [firstFile_cons, List.forall_mem_cons, ← ih, Missing]
    match (s.contains (.text candidate) w).1 with
    | .error raised => simp
    | .ok false => simp
    | .ok true =>
      match (s.isDirectory (.text candidate) w).1 with
      | .error raised => simp
      | .ok false => simp
      | .ok true => simp

def IsFile (s : Store) (candidate : Text) (w : World) : Prop :=
  (s.contains (.text candidate) w).1 = .ok true ∧ (s.isDirectory (.text candidate) w).1 = .ok false

theorem firstFile_first (found : (firstFile s candidates w).1 = .ok (some candidate)) :
    ∃ before after, candidates = before ++ candidate :: after ∧
      (∀ other ∈ before, Missing s other w) ∧ IsFile s candidate w := by
  induction candidates with
  | nil => cases found
  | cons other candidates ih =>
    have later (missing : Missing s other w)
        (found : (firstFile s candidates w).1 = .ok (some candidate)) :
        ∃ before after, other :: candidates = before ++ candidate :: after ∧
          (∀ other ∈ before, Missing s other w) ∧ IsFile s candidate w := by
      obtain ⟨before, after, split, nothing, file⟩ := ih found
      refine ⟨other :: before, after, by rw [split]; rfl, ?_, file⟩
      exact List.forall_mem_cons.2 ⟨missing, nothing⟩
    rw [firstFile_cons] at found
    split at found
    · cases found
    case h_2 absent => exact later (.inl absent) found
    case h_3 there =>
      split at found
      · cases found
      case h_2 directory => exact later (.inr ⟨there, directory⟩) found
      case h_3 file =>
        cases found
        exact ⟨[], candidates, rfl, fun _ none => absurd none List.not_mem_nil, there, file⟩

theorem firstFile_some (found : (firstFile s candidates w).1 = .ok (some candidate)) :
    candidate ∈ candidates ∧ IsFile s candidate w := by
  obtain ⟨before, after, rfl, _, file⟩ := firstFile_first found
  exact ⟨List.mem_append_right before List.mem_cons_self, file⟩

theorem firstFile_error {raised : Raised} (failed : (firstFile s candidates w).1 = .error raised) :
    ∃ candidate ∈ candidates, (s.contains (.text candidate) w).1 = .error raised ∨
      (s.isDirectory (.text candidate) w).1 = .error raised := by
  induction candidates with
  | nil => cases failed
  | cons candidate candidates ih =>
    have later : (firstFile s candidates w).1 = .error raised →
        ∃ other ∈ candidate :: candidates, (s.contains (.text other) w).1 = .error raised ∨
          (s.isDirectory (.text other) w).1 = .error raised := by
      intro failed
      obtain ⟨other, member, refused⟩ := ih failed
      exact ⟨other, List.mem_cons_of_mem candidate member, refused⟩
    rw [firstFile_cons] at failed
    split at failed
    case h_1 refused =>
      cases failed
      exact ⟨candidate, List.mem_cons_self, .inl refused⟩
    · exact later failed
    · split at failed
      case h_1 refused =>
        cases failed
        exact ⟨candidate, List.mem_cons_self, .inr refused⟩
      · exact later failed
      · cases failed

/-- A require by name: the registry's answer if a candidate is required, else a require of the first
candidate that is a file. Nothing but the log changes before that require. -/
theorem requireName_eq (s : Store) (name : Text) (w : World) :
    ∃ log, ∀ run, requireName run s name w =
      match (anyRequired s (featureCandidates name) w).1 with
      | .error raised => (.error raised, { w with log := log })
      | .ok true => (.ok false, { w with log := log })
      | .ok false =>
        match (firstFile s (featureCandidates name) w).1 with
        | .error raised => (.error raised, { w with log := log })
        | .ok none =>
          (.error (.fault (.noCandidate name (featureCandidates name))), { w with log := log })
        | .ok (some candidate) =>
          (s.require run (.text candidate) >>= fun outcome => do
            logRequire name outcome
            return decide (outcome = .loaded)) { w with log := log } := by
  simp only [requireName, Act.bind_apply (anyRequired s _)]
  cases asked : anyRequired s (featureCandidates name) w with
  | mk result after =>
    have unchanged := (anyRequired_quiet s _).eq_log asked
    match result with
    | .error raised => exact ⟨after.log, fun run => by rw [← unchanged]⟩
    | .ok true =>
      refine ⟨(logRequire name .alreadyLoaded after).2.log, fun run => ?_⟩
      rw [unchanged]
      rfl
    | .ok false =>
      have looks := firstFile_looks s (featureCandidates name)
      have same : (firstFile s (featureCandidates name) after).1 =
          (firstFile s (featureCandidates name) w).1 := by
        apply looks.answer
        rw [unchanged]
        exact ⟨rfl, rfl, rfl, rfl⟩
      simp only [← same, Bool.false_eq_true, if_false, Act.bind_apply (firstFile s _)]
      cases searched : firstFile s (featureCandidates name) after with
      | mk result last =>
        have later : last = { w with log := last.log } := by
          rw [looks.quiet.eq_log searched, unchanged]
        refine ⟨last.log, fun run => ?_⟩
        match result with
        | .error raised => simp only [← later]
        | .ok none => simp only [← later]; rfl
        | .ok (some candidate) => simp only [← later]

theorem require_eq_requireName {given : GivenPath} {name : Text} (usable : given.asText = .ok name)
    (run : ScriptRunner) (s : Store) (w : World) :
    require run s given w = requireName run s name w := by
  rw [require, usable]
  rfl

end Interpreter

end Loadable
