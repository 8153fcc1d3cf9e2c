import Loadable.Proofs.Keys
import Mathlib.Data.List.Induction
/-!
The ancestors that `parents` lists. Every key loses its last name on the way up, until a root is
reached or a key whose names before the last one end in a colon: that is taken for a drive, and the
list breaks off there.
-/
namespace Loadable

namespace Key

section Parent

variable {key before last parent : Key}

theorem beforeLastSlash?_append (clear : slash ∉ last) :
    beforeLastSlash? (before ++ slash :: last) = some before := by
  have passed : (last.reverse ++ slash :: before.reverse).dropWhile (· ≠ slash) =
      slash :: before.reverse := by
    rw [List.dropWhile_append_of_pos]
    · simp
    · intro a member
      have other : a ≠ slash := fun same => clear (List.mem_reverse.1 (same ▸ member))
      simpa using other
  have turned : (before ++ slash :: last).reverse = last.reverse ++ slash :: before.reverse := by simp
  rw [beforeLastSlash?, turned, passed]
  simp

theorem eq_append_of_beforeLastSlash? (found : beforeLastSlash? key = some before) :
    ∃ last, slash ∉ last ∧ key = before ++ slash :: last := by
  have whole := @List.takeWhile_append_dropWhile _ (· ≠ slash) key.reverse
  unfold beforeLastSlash? at found
  split at found
  case h_1 => cases found
  case h_2 first rest dropped =>
    cases found
    have separator : first = slash := by
      have stopped := List.head?_dropWhile_not (· ≠ slash) key.reverse
      rw [dropped] at stopped
      simpa using stopped
    subst separator
    refine ⟨(key.reverse.takeWhile (· ≠ slash)).reverse, ?_, ?_⟩
    · intro member
      have passed := List.all_eq_true.1 List.all_takeWhile slash (List.mem_reverse.1 member)
      simp at passed
    · rw [dropped] at whole
      have turned := congrArg List.reverse whole
      simpa using turned.symm

/-- The nearest ancestor is what stands before the last slash, with that slash if nothing else would
be left or a drive. -/
theorem parent?_eq_some : parent? key = some parent ↔
    ∃ before last, slash ∉ last ∧ key = before ++ slash :: last ∧ parent ≠ key ∧
      parent = if before = [] ∨ before.getLast? = some colon then before ++ [slash] else before := by
  have ends : ∀ before : Key, (if before = [] then [slash]
      else if before.getLast? = some colon then before ++ [slash] else before) =
        if before = [] ∨ before.getLast? = some colon then before ++ [slash] else before := by
    intro before
    by_cases empty : before = []
    · simp [empty]
    · simp [empty]
  constructor
  · intro found
    unfold parent? at found
    split at found
    case h_1 => cases found
    case h_2 before stripped =>
      obtain ⟨last, clear, whole⟩ := eq_append_of_beforeLastSlash? stripped
      simp only [ends, Option.ite_none_left_eq_some, Option.some.injEq] at found
      obtain ⟨different, rfl⟩ := found
      exact ⟨before, last, clear, whole, different, rfl⟩
  · rintro ⟨before, last, clear, rfl, different, same⟩
    simp only [parent?, beforeLastSlash?_append clear, ends, ← same, if_neg different]

theorem length_parent? (found : parent? key = some parent) : parent.length < key.length := by
  obtain ⟨before, last, _, rfl, different, same⟩ := parent?_eq_some.1 found
  have more : last ≠ [] ∨ parent = before := by
    by_cases empty : last = []
    · right
      rw [same, empty] at different
      rw [same]
      split at different
      · exact absurd rfl different
      · rw [if_neg ‹_›]
    · exact .inl empty
  split at same
  · rcases more with more | rfl
    · have longer := List.length_pos_iff.2 more
      simp only [same, List.length_append, List.length_cons, List.length_nil]
      omega
    · simp
  · subst same
    simp

end Parent

theorem ancestors_eq_parents {limit : Nat} {key : Key} (enough : key.length ≤ limit) :
    ancestors limit key = parents key := by
  suffices same : ∀ (key : Key) (first second : Nat), key.length ≤ first → key.length ≤ second →
      ancestors first key = ancestors second key from same _ _ _ enough (Nat.le_refl _)
  intro key first second
  induction first generalizing second key with
  | zero =>
    intro none _
    have empty : key = [] := List.length_eq_zero_iff.1 (Nat.le_zero.1 none)
    subst empty
    cases second <;> rfl
  | succ first ih =>
    intro enough enoughToo
    cases second with
    | zero =>
      have empty : key = [] := List.length_eq_zero_iff.1 (Nat.le_zero.1 enoughToo)
      subst empty
      rfl
    | succ second =>
      rw [ancestors, ancestors]
      cases found : parent? key with
      | none => rfl
      | some parent =>
        have shorter := length_parent? found
        simp only
        rw [ih parent second (by omega) (by omega)]

theorem parents_of_parent? {key parent : Key} (found : parent? key = some parent) :
    parents key = parent :: if isRoot parent then [] else parents parent := by
  have shorter := length_parent? found
  have unfolded : parents key = ancestors (key.length - 1 + 1) key := by
    rw [Nat.sub_add_cancel (by omega), parents]
  rw [unfolded, ancestors, found]
  simp only
  rw [ancestors_eq_parents (by omega)]

theorem parents_of_none {key : Key} (none : parent? key = none) : parents key = [] := by
  unfold parents
  cases key.length with
  | zero => rfl
  | succ limit => rw [ancestors, none]

/-- The way up from a key as it is taken, with no limit to it: to the nearest ancestor and on from
there, until a root is reached or a key without one. -/
inductive Ascends : Key → List Key → Prop where
  | stops {key : Key} (none : parent? key = none) : Ascends key []
  | root {key parent : Key} (found : parent? key = some parent) (root : isRoot parent = true) :
      Ascends key [parent]
  | further {key parent : Key} {higher : List Key} (found : parent? key = some parent)
      (unrooted : isRoot parent = false) (rest : Ascends parent higher) :
      Ascends key (parent :: higher)

theorem ascends_parents (key : Key) : Ascends key (parents key) := by
  induction key using WellFounded.induction (measure List.length).wf with
  | _ key ih =>
  cases found : parent? key with
  | none =>
    rw [parents_of_none found]
    exact .stops found
  | some parent =>
    rw [parents_of_parent? found]
    cases root : isRoot parent with
    | true => exact .root found root
    | false => exact .further found root (ih parent (length_parent? found))

namespace Ascends

variable {key : Key} {higher : List Key}

theorem eq_parents (ascends : Ascends key higher) : higher = parents key := by
  induction ascends with
  | stops none => rw [parents_of_none none]
  | root found root => rw [parents_of_parent? found, if_pos root]
  | further found unrooted rest ih =>
    rw [parents_of_parent? found, ih, unrooted]
    rfl

theorem pairwise {related : Key → Key → Prop} (ascends : Ascends key higher)
    (next : ∀ {key parent}, parent? key = some parent → related key parent)
    (trans : ∀ {lower middle upper}, related lower middle → related middle upper →
      related lower upper) : (key :: higher).Pairwise related := by
  induction ascends with
  | stops none => exact List.pairwise_singleton _ _
  | root found root => exact List.pairwise_pair.2 (next found)
  | further found unrooted rest ih =>
    refine List.pairwise_cons.2 ⟨fun above member => ?_, ih⟩
    rcases List.mem_cons.1 member with rfl | member
    · exact next found
    · exact trans (next found) (List.rel_of_pairwise_cons ih member)

end Ascends

theorem parents_length_descends (key : Key) :
    (key :: parents key).Pairwise fun longer shorter => shorter.length < longer.length :=
  (ascends_parents key).pairwise length_parent? fun first second => by omega

theorem length_of_mem_parents {key above : Key} (member : above ∈ parents key) :
    above.length < key.length :=
  List.rel_of_pairwise_cons (parents_length_descends key) member

theorem isUnder_iff {root key : Key} :
    isUnder root key = true ↔ key = root ∨ root ++ [slash] <+: key := by
  simp [isUnder, List.isPrefixOf_iff_prefix]

theorem isUnder_parent? {root key parent : Key} (lower : root ++ [slash] <+: key)
    (found : parent? key = some parent) : isUnder root parent = true := by
  obtain ⟨before, last, clear, rfl, _, same⟩ := parent?_eq_some.1 found
  -- The slash behind the root cannot stand in the last name.
  have front : root ++ [slash] <+: before ++ [slash] := by
    have step : before ++ [slash] <+: before ++ slash :: last := ⟨last, by simp⟩
    rcases List.prefix_or_prefix_of_prefix lower step with shown | ⟨more, whole⟩
    · exact shown
    · cases more using List.reverseRecOn with
      | nil => exact ⟨[], by simpa using whole.symm⟩
      | append_singleton more a =>
        obtain ⟨rest, key⟩ := lower
        rw [← List.append_assoc] at whole
        obtain ⟨_, ends⟩ := List.append_inj' whole rfl
        cases ends
        rw [← whole] at key
        have inside : last = more ++ slash :: rest := by simpa using key.symm
        exact absurd (by simp [inside]) clear
  rw [isUnder_iff, same]
  split
  · exact .inr front
  · rcases List.prefix_concat_iff.1 front with level | lower
    · exact .inl (List.append_inj_left' level rfl).symm
    · exact .inr lower

theorem Ascends.isUnder {root key above : Key} {higher : List Key} (ascends : Ascends key higher)
    (under : isUnder root key = true) (member : above ∈ higher) :
    Key.isUnder root above = true ∨ above ∈ parents root := by
  rcases isUnder_iff.1 under with rfl | lower
  · exact .inr (ascends.eq_parents ▸ member)
  induction ascends with
  | stops none => exact absurd member List.not_mem_nil
  | root found root =>
    rw [List.mem_singleton.1 member]
    exact .inl (isUnder_parent? lower found)
  | further found unrooted rest ih =>
    have underParent := isUnder_parent? lower found
    rcases List.mem_cons.1 member with rfl | further
    · exact .inl underParent
    · rcases isUnder_iff.1 underParent with rfl | lower
      · exact .inr (rest.eq_parents ▸ further)
      · exact ih underParent further lower

/-- Above a key under some root the keys are under it, too, until they are above the root itself. -/
theorem isUnder_of_mem_parents {root key above : Key}
    (under : isUnder root key = true) (member : above ∈ parents key) :
    isUnder root above = true ∨ above ∈ parents root :=
  (ascends_parents key).isUnder under member

end Key

theorem Key.getLast?_of_isRoot {key : Key} (root : key.isRoot = true) : key.getLast? = some slash := by
  unfold isRoot at root
  split at root
  · simpa using root
  · simpa using (of_decide_eq_true root).2
  · cases root

structure IsPiece (piece : Bytes) : Prop where
  nonempty : piece ≠ []
  clear : slash ∉ piece

instance (piece : Bytes) : Decidable (IsPiece piece) :=
  decidable_of_iff (piece ≠ [] ∧ slash ∉ piece)
    ⟨fun ⟨nonempty, clear⟩ => ⟨nonempty, clear⟩, fun ⟨nonempty, clear⟩ => ⟨nonempty, clear⟩⟩

theorem IsName.isPiece {name : Bytes} (named : IsName name) : IsPiece name :=
  ⟨named.nonempty, named.clear⟩

namespace Place

variable {place above : Place} {name : Bytes}

theorem path_append (above : Place) (name : Bytes) :
    path (above ++ [name]) = (if above = [] then [] else path above) ++ slash :: name := by
  by_cases empty : above = []
  · simp [empty, path, joinNames]
  · simp [empty, path, joinNames_append]

theorem path_injective (names : ∀ name ∈ place, IsName name) (others : ∀ name ∈ above, IsName name)
    (same : place.path = above.path) : place = above := by
  obtain ⟨settled, written⟩ := Flavor.write_names names
  obtain ⟨settledOther, writtenOther⟩ := Flavor.write_names others
  have read := congrArg Flavor.posix.components same
  rw [written, writtenOther, Flavor.components_write slash_ne_dot_bytes settled,
    Flavor.components_write slash_ne_dot_bytes settledOther, List.cons.injEq] at read
  exact List.map_injective_iff.2 (fun _ _ equal => Component.name.inj equal) read.2

theorem length_path_lt (above : Place) (nonempty : name ≠ []) :
    above.path.length < (path (above ++ [name])).length := by
  have longer := List.length_pos_iff.2 nonempty
  rw [path_append, List.length_append, List.length_cons]
  by_cases empty : above = []
  · simp only [empty, path, joinNames, List.length_cons, List.length_nil]
    omega
  · simp only [empty, if_false]
    omega

theorem getLast?_path_append (above : Place) (nonempty : name ≠ []) :
    (path (above ++ [name])).getLast? = name.getLast? := by
  rw [path_append, List.getLast?_append, List.getLast?_cons, List.getLast?_eq_some_getLast nonempty]
  rfl

theorem path_ends (pieces : ∀ piece ∈ place, IsPiece piece) (ends : place.path.getLast? = some slash) :
    place = [] := by
  cases place using List.reverseRecOn with
  | nil => rfl
  | append_singleton above piece =>
    have last : IsPiece piece := pieces piece (by simp)
    rw [getLast?_path_append above last.nonempty] at ends
    exact absurd (List.mem_of_getLast? ends) last.clear

end Place

namespace Key

/-- The first key is a proper ancestor of the second one: the names of the one begin the names of
the other. -/
def IsAbove (key below : Key) : Prop :=
  ∃ place more : Place, (∀ name ∈ place ++ more, IsName name) ∧ more ≠ [] ∧ key = place.path ∧
    below = (place ++ more).path

/-- The first key is a proper ancestor of the second one, and no key from it up to the second one
ends in a colon. -/
def Reaches (key below : Key) : Prop :=
  key.IsAbove below ∧
    ∀ between, between = key ∨ key.IsAbove between → between.IsAbove below →
      between.getLast? ≠ some colon

section Above

variable {key below : Key} {above : Place} {name : Bytes}

theorem isAbove_append (names : ∀ other ∈ above ++ [name], IsName other) :
    key.IsAbove (Place.path (above ++ [name])) ↔ key = above.path ∨ key.IsAbove above.path := by
  have namesAbove : ∀ other ∈ above, IsName other := fun other member =>
    names other (List.mem_append_left _ member)
  constructor
  · rintro ⟨place, more, namesOther, nonempty, rfl, same⟩
    have equal := Place.path_injective names namesOther same
    cases more using List.reverseRecOn with
    | nil => exact absurd rfl nonempty
    | append_singleton front last =>
      rw [← List.append_assoc] at equal
      obtain ⟨rfl, _⟩ := List.append_inj' equal rfl
      cases front with
      | nil => simp
      | cons first rest => exact .inr ⟨place, first :: rest, namesAbove, List.cons_ne_nil _ _, rfl, rfl⟩
  · rintro (rfl | ⟨place, more, namesOther, nonempty, rfl, same⟩)
    · exact ⟨above, [name], names, List.cons_ne_nil _ _, rfl, rfl⟩
    · have equal := Place.path_injective namesAbove namesOther same
      subst equal
      exact ⟨place, more ++ [name], by rwa [← List.append_assoc], by simp, rfl,
        by rw [List.append_assoc]⟩

theorem not_isAbove_root : ¬key.IsAbove (Place.path []) := by
  rintro ⟨place, more, names, nonempty, _, same⟩
  have equal := Place.path_injective (fun name none => absurd none List.not_mem_nil) names same
  exact nonempty (List.append_eq_nil_iff.1 equal.symm).2

theorem IsAbove.length_lt (higher : key.IsAbove below) : key.length < below.length := by
  obtain ⟨place, more, names, nonempty, rfl, rfl⟩ := id higher
  generalize place ++ more = whole at names higher
  induction whole using List.reverseRecOn with
  | nil => exact absurd higher not_isAbove_root
  | append_singleton above name ih =>
    have longer := Place.length_path_lt above (names name (by simp)).nonempty
    rcases (isAbove_append names).1 higher with same | further
    · rwa [same]
    · have shorter := ih (fun other member => names other (List.mem_append_left _ member)) further
      omega

theorem reaches_append (names : ∀ other ∈ above ++ [name], IsName other) :
    key.Reaches (Place.path (above ++ [name])) ↔
      above.path.getLast? ≠ some colon ∧ (key = above.path ∨ key.Reaches above.path) := by
  constructor
  · rintro ⟨higher, clear⟩
    have origin := (isAbove_append names).1 higher
    have next : above.path.getLast? ≠ some colon :=
      clear above.path (origin.imp Eq.symm id) ((isAbove_append names).2 (.inl rfl))
    refine ⟨next, origin.imp id fun further => ⟨further, fun between passed lower => ?_⟩⟩
    exact clear between passed ((isAbove_append names).2 (.inr lower))
  · rintro ⟨next, origin⟩
    refine ⟨(isAbove_append names).2 (origin.imp id And.left), fun between passed lower => ?_⟩
    rcases (isAbove_append names).1 lower with rfl | lower
    · exact next
    · rcases origin with rfl | ⟨_, clear⟩
      · have shorter := lower.length_lt
        rcases passed with rfl | further
        · omega
        · have longer := further.length_lt
          omega
      · exact clear between passed lower

theorem not_reaches_root : ¬key.Reaches (Place.path []) :=
  fun reaches => not_isAbove_root reaches.1

end Above

/-- The ancestors of a key with a piece more: the root alone, or the key with a slash behind it where
it ends in a colon, or else the key and its ancestors. -/
theorem parents_append {above : Place} {name : Bytes}
    (pieces : ∀ other ∈ above ++ [name], IsPiece other) :
    parents (Place.path (above ++ [name])) =
      if above.path.getLast? = some colon then [above.path ++ [slash]]
      else above.path :: parents above.path := by
  have named : IsPiece name := pieces name (by simp)
  have piecesAbove : ∀ other ∈ above, IsPiece other := fun other member =>
    pieces other (List.mem_append_left _ member)
  by_cases empty : above = []
  · subst empty
    have found : parent? (Place.path ([] ++ [name])) = some [slash] :=
      parent?_eq_some.2 ⟨[], name, named.clear, by simp [Place.path, joinNames],
        by simp [Place.path, joinNames, named.nonempty], rfl⟩
    rw [parents_of_parent? found]
    rfl
  · have whole : Place.path (above ++ [name]) = above.path ++ slash :: name := by
      rw [Place.path_append, if_neg empty]
    have nonempty : above.path ≠ [] := List.cons_ne_nil _ _
    by_cases drive : above.path.getLast? = some colon
    · have found : parent? (Place.path (above ++ [name])) = some (above.path ++ [slash]) :=
        parent?_eq_some.2 ⟨above.path, name, named.clear, whole, by simp [whole, named.nonempty.symm],
          by simp [drive]⟩
      have stuck : parent? (above.path ++ [slash]) = none := by
        simp [parent?, beforeLastSlash?_append (List.not_mem_nil), nonempty, drive]
      simp [parents_of_parent? found, parents_of_none stuck, drive]
    · have found : parent? (Place.path (above ++ [name])) = some above.path :=
        parent?_eq_some.2 ⟨above.path, name, named.clear, whole, by simp [whole],
          by simp [nonempty, drive]⟩
      have below : isRoot above.path = false := by
        cases root : isRoot above.path with
        | false => rfl
        | true => exact absurd (Place.path_ends piecesAbove (getLast?_of_isRoot root)) empty
      simp [parents_of_parent? found, below, drive]

/-- On canonical keys `parents` lists the ancestors that reach the key. -/
theorem mem_parents_iff {above key : Key} (canonical : key.IsCanonical)
    (canonicalAbove : above.IsCanonical) : above ∈ parents key ↔ above.Reaches key := by
  obtain ⟨place, names, rfl⟩ := canonical
  obtain ⟨higher, namesAbove, rfl⟩ := canonicalAbove
  induction place using List.reverseRecOn with
  | nil =>
    have root : parents (Place.path []) = [] := by decide
    simp [root, not_reaches_root]
  | append_singleton front name ih =>
    have namesFront : ∀ other ∈ front, IsName other := fun other member =>
      names other (List.mem_append_left _ member)
    rw [reaches_append names, parents_append fun other member => (names other member).isPiece]
    split
    case isTrue drive =>
      have other : Place.path higher ≠ Place.path front ++ [slash] := by
        intro same
        have pieces := fun other member => (namesAbove other member).isPiece
        have root := Place.path_ends pieces (by simp [same])
        subst root
        cases front <;> simp [Place.path, joinNames] at same
      simp [drive, other]
    case isFalse other =>
      rw [List.mem_cons, ih namesFront]
      simp [other]

end Key

end Loadable
