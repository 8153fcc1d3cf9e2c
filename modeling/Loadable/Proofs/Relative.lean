import Loadable.Proofs.Extension
import Loadable.Proofs.Finality
import Loadable.Proofs.Tree
import Mathlib.Data.List.TakeWhile
/-!
Requiring relative to the current file. The name is resolved against the directory of the file, and
what comes of it is resolved once more by the store. That is harmless where the file's key is
canonical; a working directory that is relative or has a `..` in it gets in the way.
-/
namespace Loadable

namespace Flavor

section Directories

variable {α : Type} [PathLetter α] [DecidableEq α] {path : List α}

theorem trimSlashes_cases (path : List α) : trimSlashes path = path ∨
    trimSlashes path ≠ [] ∧ ∃ more, path = trimSlashes path ++ slash :: more := by
  unfold trimSlashes
  have split := List.takeWhile_append_dropWhile (p := (· = slash)) (l := path.reverse)
  cases kept : path.reverse.dropWhile (· = slash) with
  | nil => exact .inl rfl
  | cons a others =>
    rw [kept] at split
    have whole : path = (a :: others).reverse ++ (path.reverse.takeWhile (· = slash)).reverse := by
      rw [← List.reverse_append, split, List.reverse_reverse]
    cases slashes : (path.reverse.takeWhile (· = slash)).reverse with
    | nil =>
      rw [slashes, List.append_nil] at whole
      exact .inl whole.symm
    | cons b more =>
      have same : b = slash := by
        have member : b ∈ path.reverse.takeWhile (· = slash) := by
          rw [← List.mem_reverse, slashes]
          exact List.mem_cons_self
        simpa using List.mem_takeWhile_imp member
      rw [slashes, same] at whole
      exact .inr ⟨by simp, more, whole⟩

theorem dirName_rooted (rooted : posix.startsRooted path = true) :
    ∃ upper last, dirName path = trimSlashes (upper ++ [slash]) ∧ path = upper ++ slash :: last := by
  have split := List.takeWhile_append_dropWhile (p := (· ≠ slash)) (l := path.reverse)
  cases left : path.reverse.dropWhile (· ≠ slash) with
  | nil =>
    have clear := List.dropWhile_eq_nil_iff.1 left
    have member : slash ∈ path.reverse :=
      List.mem_reverse.2 (List.mem_of_mem_head? (startsRooted_iff.1 rooted))
    simpa using clear slash member
  | cons a upper =>
    have same : a = slash := by
      have stopped := List.head?_dropWhile_not (fun a => decide (a ≠ slash)) path.reverse
      rw [left] at stopped
      simpa using stopped
    subst same
    have whole : path = (path.reverse.takeWhile (· ≠ slash) ++ slash :: upper).reverse := by
      rw [← left, split, List.reverse_reverse]
    have directory : dirName path = trimSlashes
        (path.take (path.length - (path.reverse.takeWhile (· ≠ slash)).reverse.length)) := rfl
    rw [List.reverse_append, List.reverse_cons] at whole
    generalize (path.reverse.takeWhile (· ≠ slash)).reverse = last at whole directory
    subst whole
    refine ⟨upper.reverse, last, ?_, by simp⟩
    have length : (upper.reverse ++ [slash]).length =
        (upper.reverse ++ [slash] ++ last).length - last.length := by
      simp only [List.length_append, Nat.add_sub_cancel]
    rw [directory, List.take_left' length]

/-- The directory of a rooted path is rooted, and has no components but those of the path. -/
theorem components_dirName (rooted : posix.startsRooted path = true) :
    posix.startsRooted (dirName path) = true ∧
      posix.components (dirName path) <+: posix.components path := by
  obtain ⟨upper, last, directory, rfl⟩ := dirName_rooted rooted
  rw [directory]
  have front : posix.startsRooted (upper ++ [slash]) = true ∧
      posix.components (upper ++ [slash]) <+: posix.components (upper ++ slash :: last) := by
    cases upper with
    | nil =>
      refine ⟨posix_separator_iff.2 rfl, ?_⟩
      rw [List.nil_append, List.nil_append, components_rooted, components_rooted]
      exact ⟨_, rfl⟩
    | cons a upper =>
      refine ⟨rooted, ?_⟩
      rw [components_append (List.cons_ne_nil a upper), components_append (List.cons_ne_nil a upper)]
      have nothing : (splitAt posix.isSeparator ([] : List α)).filterMap (Component.ofPiece? false) = [] :=
        rfl
      rw [nothing, List.append_nil]
      exact List.prefix_append _ _
  rcases trimSlashes_cases (upper ++ [slash]) with same | ⟨nonempty, more, longer⟩
  · rwa [same]
  · generalize trimSlashes (upper ++ [slash]) = directory at nonempty longer
    rw [longer] at front
    refine ⟨?_, (List.prefix_append _ _).trans (components_append nonempty more ▸ front.2)⟩
    cases directory with
    | nil => exact absurd rfl nonempty
    | cons a directory => exact front.1

end Directories

end Flavor

namespace Store

variable {flavor : Flavor} {cwd : Text} {path : GivenPath} {key : Key}

theorem key_of_isRequired {w : World} {required : Bool}
    (answered : (isRequired (.memory flavor cwd) path w).1 = .ok required) :
    ∃ key, ownKey (.memory flavor cwd) path = .ok key := by
  cases own : ownKey (.memory flavor cwd) path with
  | ok key => exact ⟨key, rfl⟩
  | error raised => simp [isRequired, resolve, Act.bind_apply, Act.of, Act.raise, own] at answered

theorem key_of_contains {w : World} {there : Bool}
    (answered : (contains (.memory flavor cwd) path w).1 = .ok there) :
    ∃ key, ownKey (.memory flavor cwd) path = .ok key := by
  cases own : ownKey (.memory flavor cwd) path with
  | ok key => exact ⟨key, rfl⟩
  | error raised => simp [contains, resolve, Act.bind_apply, Act.of, Act.raise, own] at answered

end Store

namespace Interpreter

/-- A require by name whose candidates have these keys in a memory store: the name itself serves
only for what is said about it. -/
def requireKeys (run : ScriptRunner) (s : Store) (name : Text) (keys : List Key) : Act Bool := do
  let w ← Act.world
  if keys.any w.tables.features.isLoaded then
    logRequire name .alreadyLoaded
    return false
  else match keys.find? fun key => w.tables.has key && !w.tables.isDirectory key with
    | some key =>
      let outcome ← s.requireKey run key
      logRequire name outcome
      return outcome = .loaded
    | none => Act.raise (.fault (.noCandidate name (featureCandidates name)))

section Keys

variable {flavor : Flavor} {cwd : Text} {candidates : List Text} {keys : List Key} {w : World}

def HaveKeys (s : Store) : List Text → List Key → Prop :=
  List.Forall₂ fun candidate key => s.ownKey (.text candidate) = .ok key

theorem anyRequired_keys (own : HaveKeys (.memory flavor cwd) candidates keys) (w : World) :
    anyRequired (.memory flavor cwd) candidates w =
      (.ok (keys.any w.tables.features.isLoaded), w) := by
  induction own with
  | nil => rfl
  | cons first rest ih =>
    rw [anyRequired, Act.bind_apply, Store.isRequired_memory rfl first, List.any_cons]
    cases w.tables.features.isLoaded _ with
    | true => rfl
    | false => exact ih

theorem firstFile_keys (own : HaveKeys (.memory flavor cwd) candidates keys) (w : World) :
    ∃ found, firstFile (.memory flavor cwd) candidates w = (.ok found, w) ∧
      Option.Rel (fun candidate key => Store.ownKey (.memory flavor cwd) (.text candidate) = .ok key)
        found (keys.find? fun key => w.tables.has key && !w.tables.isDirectory key) := by
  induction own with
  | nil => exact ⟨none, rfl, .none⟩
  | @cons candidate key candidates keys first rest ih =>
    rw [firstFile, Act.bind_apply, Store.contains_memory first, List.find?_cons]
    cases w.tables.has key with
    | false => exact ih
    | true =>
      simp only [if_true, Act.bind_apply, Store.isDirectory_memory first, Bool.true_and]
      cases w.tables.isDirectory key with
      | true => exact ih
      | false => exact ⟨some candidate, rfl, .some first⟩

theorem requireName_keys (run : ScriptRunner) {name : Text}
    (own : HaveKeys (.memory flavor cwd) (featureCandidates name) keys) :
    requireName run (.memory flavor cwd) name = requireKeys run (.memory flavor cwd) name keys := by
  funext w
  obtain ⟨found, searched, alike⟩ := firstFile_keys own w
  simp only [requireName, requireKeys, Act.bind_apply, anyRequired_keys own, Act.world]
  cases keys.any w.tables.features.isLoaded with
  | true => rfl
  | false =>
    simp only [Bool.false_eq_true, if_false, Act.bind_apply, searched]
    generalize keys.find? (fun key => w.tables.has key && !w.tables.isDirectory key) = file at alike ⊢
    cases alike with
    | none => rfl
    | some first =>
      simp only [(Store.leadsTo_ownKey (.inl rfl) first).require_eq]

end Keys

end Interpreter

namespace Interpreter

open Flavor

section Fixed

variable {cwd goal name : Text} {given : GivenPath} {f t : Key}

theorem requireRelative_eq (read : given.asText = .ok name) (nonempty : f ≠ []) (cwd : Text)
    (run : ScriptRunner) {w : World} (current : w.files.head? = some (Text.decode f)) :
    requireRelative run (.memory .posix cwd) given w = requireName run (.memory .posix cwd)
      (posix.absolutize name (dirName (Text.decode f))) w := by
  have encoded := Text.encode?_decode f
  cases text : Text.decode f with
  | nil =>
    rw [text] at encoded
    cases encoded
    exact absurd rfl nonempty
  | cons c file =>
    rw [text] at current
    simp only [requireRelative, read, Act.ofMishap, currentFile?, Act.bind_apply, Act.world,
      Act.pure_apply, current, relativeTarget]

theorem haveKeys_of_fixed (encoded : Text.encode? goal = some t)
    (fixed : ∀ candidate ∈ featureCandidates goal, posix.resolve candidate cwd = posix.keyOf candidate) :
    HaveKeys (.memory .posix cwd) (featureCandidates goal) (Key.candidates t) := by
  refine ((List.forall₂_and_left _ _).2 ⟨fixed, Text.candidates_encode? encoded⟩).imp ?_
  rintro candidate key ⟨own, bytes⟩
  exact Store.ownKey_ok.2 ⟨candidate, rfl, own.trans (keyOf_posix.2 bytes)⟩

theorem registered_of_requireName {run : ScriptRunner} {w : World}
    (free : ∀ key, w.tables.isFile key = false)
    (answered : (requireName run (.memory .posix cwd) goal w).1 = .ok false) :
    ∃ candidate ∈ featureCandidates goal, ∃ key,
      posix.resolve candidate cwd = .ok key ∧ w.tables.features.isLoaded key = true := by
  obtain ⟨log, ran⟩ := requireName_eq (.memory .posix cwd) goal w
  rw [ran] at answered
  split at answered
  · cases answered
  case h_2 registered =>
    rw [anyRequired_eq] at registered
    obtain ⟨before, candidate, after, split, _, required⟩ := firstYes_first registered (by simp)
    obtain ⟨key, own⟩ := Store.key_of_isRequired required
    rw [Store.isRequired_memory rfl own, Except.ok.injEq] at required
    obtain ⟨text, read, resolved⟩ := Store.ownKey_ok.1 own
    cases read
    exact ⟨candidate, by simp [split], key, resolved, required⟩
  case h_3 =>
    split at answered
    · cases answered
    · cases answered
    case h_3 candidate found =>
      obtain ⟨_, there, file⟩ := firstFile_some found
      obtain ⟨key, own⟩ := Store.key_of_contains there
      rw [Store.contains_memory own, Tables.has, free key, Bool.false_or, Except.ok.injEq] at there
      rw [Store.isDirectory_memory own, there] at file
      cases file

/-- While the file is the current one, the feature is required by its own keys. -/
def ByOwnKeys (cwd goal : Text) (f t : Key) : Prop :=
  ∀ (run : ScriptRunner) (w : World), w.files.head? = some (Text.decode f) →
    requireName run (.memory .posix cwd) goal w =
      requireKeys run (.memory .posix cwd) goal (Key.candidates t) w

/-- Any key of the feature may be the one that is registered, so the store has to come upon it. -/
theorem ByOwnKeys.met (own : ByOwnKeys cwd goal f t) {key : Key} (member : key ∈ Key.candidates t) :
    ∃ candidate ∈ featureCandidates goal, posix.resolve candidate cwd = .ok key := by
  let w : World := { tables := { features := ⟨[key]⟩ }, files := [Text.decode f] }
  have loaded : (Key.candidates t).any w.tables.features.isLoaded = true :=
    List.any_eq_true.2 ⟨key, member, by simp [w, Registry.isLoaded]⟩
  have answered : (requireName (fun _ => pure ()) (.memory .posix cwd) goal w).1 = .ok false := by
    rw [own _ w rfl]
    simp only [requireKeys, Act.bind_apply, Act.world, loaded, if_true]
    rfl
  obtain ⟨candidate, inside, found, resolved, registered⟩ :=
    registered_of_requireName (fun _ => rfl) answered
  have same : found = key := by simpa [w, Registry.isLoaded] using registered
  exact ⟨candidate, inside, same ▸ resolved⟩

theorem ByOwnKeys.fixed (own : ByOwnKeys cwd goal f t) (encoded : Text.encode? goal = some t) :
    ∀ candidate ∈ featureCandidates goal, posix.resolve candidate cwd = posix.keyOf candidate := by
  have itself := keyOf_posix.2 encoded
  have same := Text.suffix_iff_of_encode? encoded
  obtain ⟨found, among, resolved⟩ := own.met (Key.mem_candidates t)
  intro candidate member
  by_cases extended : sourceExtension <:+ goal
  · rw [featureCandidates_extended extended, List.mem_singleton] at among member
    rw [member, itself, ← among, resolved]
  · -- What has the extension is resolved to a key that has it, so the key without it is the goal's.
    have plain : posix.resolve goal cwd = .ok t := by
      rw [featureCandidates_bare extended, List.mem_pair] at among
      rcases among with rfl | rfl
      · have ends := extension_of_resolve (List.suffix_append goal sourceExtension) resolved
        exact absurd (same.2 ends) extended
      · exact resolved
    have longer : posix.resolve (goal ++ sourceExtension) cwd = .ok (t ++ Key.extension) := by
      have first : t ++ Key.extension ∈ Key.candidates t := by
        rw [Key.candidates_bare (mt same.2 extended)]
        exact List.mem_cons_self
      obtain ⟨other, behind, met⟩ := own.met first
      rw [featureCandidates_bare extended, List.mem_pair] at behind
      rcases behind with rfl | rfl
      · exact met
      · rw [plain, Except.ok.injEq] at met
        exact absurd (List.self_eq_append_right.1 met) (by decide)
    rw [featureCandidates_bare extended, List.mem_pair] at member
    rcases member with rfl | rfl
    · rw [longer]
      exact (keyOf_posix.2 (Text.encode?_append.2
        ⟨_, _, encoded, Text.encode?_sourceExtension, rfl⟩)).symm
    · rw [plain, itself]

theorem byOwnKeys_iff (encoded : Text.encode? goal = some t) : ByOwnKeys cwd goal f t ↔
    ∀ candidate ∈ featureCandidates goal, posix.resolve candidate cwd = posix.keyOf candidate := by
  constructor
  · exact fun own => own.fixed encoded
  · intro fixed run w _
    rw [requireName_keys run (haveKeys_of_fixed encoded fixed)]

theorem candidates_canonical (canonical : t.IsCanonical) : ∀ key ∈ Key.candidates t, key.IsCanonical := by
  intro key member
  unfold Key.candidates at member
  split at member
  · rw [List.mem_singleton.1 member]
    exact canonical
  · rcases List.mem_cons.1 member with rfl | last
    · exact canonical.extended
    · rw [List.mem_singleton.1 last]
      exact canonical

theorem byOwnKeys_of_canonical (encoded : Text.encode? goal = some t) (canonical : t.IsCanonical)
    (cwd : Text) : ByOwnKeys cwd goal f t := by
  have own : HaveKeys (.memory .posix cwd) (featureCandidates goal) (Key.candidates t) := by
    have alike := ((List.forall₂_and_left _ _).2
      ⟨candidates_canonical canonical, (Text.candidates_encode? encoded).flip⟩).flip
    refine alike.imp ?_
    rintro candidate key ⟨canonical, bytes⟩
    exact Store.ownKey_ok.2 ⟨candidate, rfl, canonical.resolve bytes cwd⟩
  intro run w _
  rw [requireName_keys run own]

theorem byOwnKeys_iff_canonical {base : Text} (absolute : posix.isAbsolute base = true)
    (resolved : posix.resolve name base = .ok t) :
    ByOwnKeys cwd (posix.absolutize name base) f t ↔ t.IsCanonical := by
  have encoded := resolve_posix.1 resolved
  constructor
  · intro own
    have again : posix.resolve (posix.absolutize name base) cwd = .ok t := by
      rw [own.fixed encoded _ (mem_featureCandidates _), keyOf_posix.2 encoded]
    obtain ⟨others, rfl, plain, _⟩ := resolve_standing absolute resolved
    rw [canonical_iff_up plain]
    exact (resolve_encode? plain encoded cwd).1 again
  · exact fun canonical => byOwnKeys_of_canonical encoded canonical cwd

theorem rooted_of_isAbsolute (absolute : posix.isAbsolute f = true) :
    posix.startsRooted (Text.decode f) = true := by
  rw [← startsRooted_encode? (Text.encode?_decode f), ← isAbsolute_eq, absolute]

theorem canonical_beside (canonical : f.IsCanonical)
    (resolved : posix.resolve name (dirName (Text.decode f)) = .ok t) : t.IsCanonical := by
  obtain ⟨place, names, rfl⟩ := canonical
  obtain ⟨settled, written⟩ := write_names names
  have found := components_write slash_ne_dot_bytes settled
  rw [← written] at found
  obtain ⟨rooted, upper⟩ :=
    components_dirName (rooted_of_isAbsolute (isAbsolute_of_components found))
  have down : .up ∉ posix.components (Text.decode place.path) := by
    rw [← up_mem_iff_of_forall₂ (components_alike (Text.encode?_decode place.path)), found]
    simp
  have absolute : posix.isAbsolute (dirName (Text.decode place.path)) = true := by
    rw [isAbsolute_eq, rooted]
  exact canonical_of_resolve absolute (fun member => down (upper.subset member)) resolved

theorem byOwnKeys_iff_relative (read : given.asText = .ok name) (nonempty : f ≠ []) (cwd : Text) :
    ByOwnKeys cwd (posix.absolutize name (dirName (Text.decode f))) f t ↔
      ∀ (run : ScriptRunner) (w : World), w.files.head? = some (Text.decode f) →
        requireRelative run (.memory .posix cwd) given w = requireKeys run (.memory .posix cwd)
          (posix.absolutize name (dirName (Text.decode f))) (Key.candidates t) w := by
  refine forall₂_congr fun run w => imp_congr_right fun current => ?_
  rw [requireRelative_eq read nonempty cwd run current]

theorem requireKeys_cwd (run : ScriptRunner) (cwd other name : Text) (keys : List Key) :
    requireKeys run (.memory .posix cwd) name keys = requireKeys run (.memory .posix other) name keys :=
  rfl

end Fixed

/-- While a file with the key `f` is the current one, a name is required relative to it as the feature
of the key that the name has in the file's directory, exactly if the store resolves the candidates to
their own bytes. Below an absolute file it does so exactly if that key is canonical. The key is, and
the working directory does not matter, if the file's own key is canonical, as all keys of a store are
whose working directory is absolute and without `..`. -/
theorem requireRelative_iff_fixed (cwd : Text) {f t : Key} {given : GivenPath} {name : Text}
    (read : given.asText = .ok name)
    (resolved : posix.resolve name (dirName (Text.decode f)) = .ok t) :
    let s : Store := .memory .posix cwd
    let goal := posix.absolutize name (dirName (Text.decode f))
    let beside := ∀ (run : ScriptRunner) (w : World), w.files.head? = some (Text.decode f) →
      requireRelative run s given w = requireKeys run s goal (Key.candidates t) w
    (f ≠ [] → (beside ↔
      ∀ candidate ∈ featureCandidates goal, posix.resolve candidate cwd = posix.keyOf candidate)) ∧
    (posix.isAbsolute f = true → (beside ↔ t.IsCanonical)) ∧
    (f.IsCanonical → beside ∧ ∀ (other : Text) (run : ScriptRunner) (w : World),
      w.files.head? = some (Text.decode f) →
        requireRelative run (.memory .posix other) given w = requireRelative run s given w) ∧
    (posix.isAbsolute cwd = true → .up ∉ posix.components cwd →
      ∀ path, s.ownKey path = .ok f → f.IsCanonical) ∧
    (f = [] → ∀ (run : ScriptRunner) (w : World), w.files.head? = some (Text.decode f) →
      requireRelative run s given w = requireName run s (posix.absolutize name cwd) w) := by
  intro s goal beside
  have encoded : Text.encode? goal = some t := resolve_posix.1 resolved
  have nonempty : posix.isAbsolute f = true → f ≠ [] := by
    rintro absolute rfl
    cases absolute
  refine ⟨?_, ?_, ?_, ?_, ?_⟩
  · intro named
    exact (byOwnKeys_iff_relative read named cwd).symm.trans (byOwnKeys_iff encoded)
  · intro absolute
    have directory : posix.isAbsolute (dirName (Text.decode f)) = true := by
      rw [isAbsolute_eq, (components_dirName (rooted_of_isAbsolute absolute)).1]
    exact (byOwnKeys_iff_relative read (nonempty absolute) cwd).symm.trans
      (byOwnKeys_iff_canonical directory resolved)
  · intro canonical
    have absolute : posix.isAbsolute f = true := by
      obtain ⟨place, _, rfl⟩ := canonical
      exact isAbsolute_of_components (components_rooted _)
    have everywhere := fun cwd => (byOwnKeys_iff_relative read (nonempty absolute) cwd).1
      (byOwnKeys_of_canonical encoded (canonical_beside canonical resolved) cwd)
    refine ⟨everywhere cwd, fun other run w current => ?_⟩
    rw [everywhere other run w current, everywhere cwd run w current, requireKeys_cwd run other cwd]
  · intro absolute down path
    exact Store.canonical_of_ownKey absolute down
  · rintro rfl run w current
    have empty : w.files.head? = some [] := current
    simp only [requireRelative, read, Act.ofMishap, currentFile?, Act.bind_apply, Act.world,
      Act.pure_apply, empty, relativeTarget, s]

/-- A file at an absolute path finds its neighbour from any store. -/
theorem neighbour_required :
    let s : Store := .memory .posix ("q/.." : Text)
    let f : Key := Bytes.ofString "/a/f.rb"
    let w : World :=
      { (s.write (.text ("/g.rb" : Text)) (.bytes []) {}).2 with files := [Text.decode f] }
    posix.resolve ("../g" : Text) (dirName (Text.decode f)) = .ok (Bytes.ofString "/g") ∧
      f.IsCanonical ∧
      (requireRelative (fun _ => pure ()) s (.text ("../g" : Text)) w).1 = .ok true := by
  intro s f w
  have resolved : posix.resolve ("../g" : Text) (dirName (Text.decode f)) =
      .ok (Bytes.ofString "/g") := by
    decide +kernel
  have canonical : f.IsCanonical :=
    ⟨[Bytes.ofString "a", Bytes.ofString "f.rb"], by decide, by decide⟩
  have read : (GivenPath.text ("../g" : Text)).asText = .ok ("../g" : Text) := rfl
  obtain ⟨_, _, everywhere, _⟩ := requireRelative_iff_fixed ("q/.." : Text) read resolved
  obtain ⟨beside, _⟩ := everywhere canonical
  refine ⟨resolved, canonical, ?_⟩
  rw [beside (fun _ => pure ()) w rfl]
  decide +kernel

/-- With the working directory `a` the file `a/f.rb` does not find its neighbour `a/x.rb`: the store
looks for `a/a/x.rb`. -/
theorem directory_taken_twice :
    let s : Store := .memory .posix ("a" : Text)
    let f : Key := Bytes.ofString "a/f.rb"
    let w : World :=
      { (s.write (.text ("x.rb" : Text)) (.bytes []) {}).2 with files := [Text.decode f] }
    s.ownKey (.text ("f.rb" : Text)) = .ok f ∧
      posix.resolve ("x" : Text) (dirName (Text.decode f)) = .ok (Bytes.ofString "a/x") ∧
      (requireRelative (fun _ => pure ()) s (.text ("x" : Text)) w).1 =
        .error (.fault (.noCandidate ("a/x" : Text) [("a/x.rb" : Text), ("a/x" : Text)])) ∧
      (requireKeys (fun _ => pure ()) s ("a/x" : Text) (Key.candidates (Bytes.ofString "a/x")) w).1 =
        .ok true := by
  decide +kernel

end Interpreter

end Loadable
