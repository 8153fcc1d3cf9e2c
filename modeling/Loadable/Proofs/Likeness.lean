import Loadable.Path.Given
import Mathlib.Data.List.Forall2
/-!
Resolving two paths side by side. Which components are gathered depends on their kinds and not on their
letters, so from components that are alike what is gathered is alike, be it of one alphabet or of two.
Paths given as text or as bytes are resolved as the texts that they are read as.
-/
namespace Loadable

namespace Component

variable {α β : Type} {r : List α → List β → Prop}

inductive Rel (r : List α → List β → Prop) : Component α → Component β → Prop where
  | drive {text : List α} {other : List β} (related : r text other) : Rel r (.drive text) (.drive other)
  | root : Rel r .root .root
  | here : Rel r .here .here
  | up : Rel r .up .up
  | name {text : List α} {other : List β} (related : r text other) : Rel r (.name text) (.name other)

theorem Rel.refl {r : List α → List α → Prop} (same : ∀ text, r text text) (c : Component α) :
    Rel r c c := by
  cases c with
  | drive text => exact .drive (same text)
  | root => exact .root
  | here => exact .here
  | up => exact .up
  | name text => exact .name (same text)

end Component

namespace Flavor

variable {α β : Type} {r : List α → List β → Prop}

theorem advance_rel (relative : Bool) {gathered : List (Component α)} {others : List (Component β)}
    (alike : List.Forall₂ (Component.Rel r) gathered others) {c : Component α} {d : Component β}
    (same : Component.Rel r c d) :
    List.Forall₂ (Component.Rel r) (advance relative gathered c) (advance relative others d) := by
  cases same with
  | here => exact alike
  | up =>
    have rest : List.Forall₂ (Component.Rel r) gathered.tail others.tail := by
      cases alike with
      | nil => exact .nil
      | cons _ rest => exact rest
    have empty : gathered.tail = [] ↔ others.tail = [] := by
      rw [← List.length_eq_zero_iff, rest.length_eq, List.length_eq_zero_iff]
    unfold advance
    by_cases last : others.tail = []
    · cases relative with
      | true => simpa [last] using rest
      | false => simpa [last, empty] using Component.Rel.root
    · simpa [last, empty] using rest
  | drive related => exact .cons (.drive related) alike
  | root => exact .cons .root alike
  | name related => exact .cons (.name related) alike

theorem foldl_advance_rel (relative : Bool) {path : List (Component α)} {other : List (Component β)}
    (paths : List.Forall₂ (Component.Rel r) path other) {gathered : List (Component α)}
    {others : List (Component β)} (alike : List.Forall₂ (Component.Rel r) gathered others) :
    List.Forall₂ (Component.Rel r) (path.foldl (advance relative) gathered)
      (other.foldl (advance relative) others) := by
  induction paths generalizing gathered others with
  | nil => exact alike
  | cons first _ ih => exact ih (advance_rel relative alike first)

variable [DecidableEq α] [PathLetter α] [DecidableEq β] [PathLetter β] {f : Flavor}
  {path cwd : List α} {other dir : List β}

theorem isAbsolute_rel (alike : List.Forall₂ (Component.Rel r) (f.components cwd) (f.components dir)) :
    f.isAbsolute cwd = f.isAbsolute dir := by
  unfold isAbsolute
  generalize f.components cwd = components at alike
  generalize f.components dir = others at alike
  cases alike with
  | nil => cases f <;> rfl
  | cons first rest =>
    cases f with
    | posix => cases first <;> rfl
    | nt =>
      cases first with
      | drive _ =>
        cases rest with
        | nil => rfl
        | cons second _ => cases second <;> rfl
      | _ => rfl

theorem gathered_rel (paths : List.Forall₂ (Component.Rel r) (f.components path) (f.components other))
    (dirs : List.Forall₂ (Component.Rel r) (f.components cwd) (f.components dir)) :
    List.Forall₂ (Component.Rel r) (f.gather path cwd) (f.gather other dir) := by
  have starts : (f.start (f.components path) cwd).1 = (f.start (f.components other) dir).1 ∧
      List.Forall₂ (Component.Rel r) (f.start (f.components path) cwd).2
        (f.start (f.components other) dir).2 := by
    have absolute := isAbsolute_rel dirs
    have reversed := List.rel_reverse dirs
    generalize f.components path = components at paths
    generalize f.components other = others at paths
    cases paths with
    | nil => exact ⟨congrArg Bool.not absolute, reversed⟩
    | cons first _ =>
      cases first with
      | root => exact ⟨rfl, .nil⟩
      | _ => exact ⟨congrArg Bool.not absolute, reversed⟩
  rw [gather_eq, gather_eq, starts.1]
  exact foldl_advance_rel _ paths starts.2

/-- Given paths are resolved as the texts that they are read as. -/
theorem resolveGiven_eq {f : Flavor} {path cwd : GivenPath} {text directory : Text}
    (read : path.asText = .ok text) (readCwd : cwd.asText = .ok directory) :
    f.resolveGiven path cwd =
      (f.resolve text directory).mapError fun stretch => .fault (.unencodable stretch) := by
  have given : f.absolutizeGiven path cwd = .ok (f.absolutize text directory) := by
    simp only [absolutizeGiven, read, bind, Except.bind]
    split
    case h_1 rest rooted =>
      simp only [absolutize, gather_rooted rooted, pure, Except.pure]
    case h_2 => simp [readCwd, pure, Except.pure]
  rw [resolveGiven, given]
  simp only [keyOfGiven, resolve]
  cases f.keyOf (f.absolutize text directory) <;> rfl

theorem resolveGiven_ok {f : Flavor} {path cwd : GivenPath} {text directory : Text} {key : Key}
    (read : path.asText = .ok text) (readCwd : cwd.asText = .ok directory) :
    f.resolveGiven path cwd = .ok key ↔ f.keyOf (f.absolutize text directory) = .ok key := by
  rw [resolveGiven_eq read readCwd, resolve]
  cases f.keyOf (f.absolutize text directory) <;> simp [Except.mapError]

theorem resolveGiven_error {f : Flavor} {path cwd : GivenPath} {text directory : Text}
    {stretch : Text.Unencodable} (read : path.asText = .ok text)
    (readCwd : cwd.asText = .ok directory) :
    f.resolveGiven path cwd = .error (.fault (.unencodable stretch)) ↔
      f.keyOf (f.absolutize text directory) = .error stretch := by
  rw [resolveGiven_eq read readCwd, resolve]
  cases f.keyOf (f.absolutize text directory) <;> simp [Except.mapError]

end Flavor

end Loadable
