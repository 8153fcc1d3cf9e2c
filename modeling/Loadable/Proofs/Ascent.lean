import Loadable.Proofs.Ancestors
import Mathlib.Data.List.Infix
/-!
What `parents` lists of any key, canonical or not: the way up ends, and passes through shorter and
shorter beginnings of the key. Of an absolute path these are all the places above it as long as no
piece on the way ends in a colon.
-/
namespace Loadable

namespace Place

def higher (place : Place) : List Place :=
  place.inits.dropLast.reverse

theorem inits_append_dropLast (above : Place) (name : Bytes) :
    (above ++ [name]).inits.dropLast = above.inits := by
  rw [List.inits_append]
  exact List.dropLast_concat

theorem higher_append (above : Place) (name : Bytes) :
    higher (above ++ [name]) = above :: higher above := by
  rw [higher, inits_append_dropLast]
  cases above using List.reverseRecOn with
  | nil => rfl
  | append_singleton front last =>
    rw [higher, inits_append_dropLast, List.inits_append]
    exact List.reverse_concat

theorem getLast?_higher {place : Place} (nonempty : place ≠ []) : place.higher.getLast? = some [] := by
  induction place using List.reverseRecOn with
  | nil => exact absurd rfl nonempty
  | append_singleton above name ih =>
    rw [higher_append, List.getLast?_cons]
    by_cases empty : above = []
    · rw [empty]
      rfl
    · rw [ih empty]
      rfl

theorem forall_mem_iff_path {place : Place} (pieces : ∀ piece ∈ place, IsPiece piece) :
    (∀ piece ∈ place, piece.getLast? ≠ some colon) ↔
      place.path.getLast? ≠ some colon ∧ ∀ piece ∈ place.dropLast, piece.getLast? ≠ some colon := by
  cases place using List.reverseRecOn with
  | nil => decide
  | append_singleton front last =>
    have nonempty := (pieces last (by simp)).nonempty
    rw [getLast?_path_append front nonempty, List.dropLast_concat, List.forall_mem_append,
      List.forall_mem_singleton, and_comm]

end Place

namespace Key

theorem prefix_of_parent? {key parent : Key} (found : parent? key = some parent) : parent <+: key := by
  obtain ⟨before, last, _, rfl, _, same⟩ := parent?_eq_some.1 found
  rw [same]
  split
  · exact ⟨last, by simp⟩
  · exact List.prefix_append before (slash :: last)

theorem prefix_of_mem_parents {key above : Key} (member : above ∈ parents key) : above <+: key := by
  have prefixes := (ascends_parents key).pairwise prefix_of_parent?
    fun first second => List.IsPrefix.trans second first
  exact List.rel_of_pairwise_cons prefixes member

theorem ascends_iff {key : Key} {higher : List Key} : Ascends key higher ↔ higher = parents key := by
  constructor
  · intro ascends
    exact ascends.eq_parents
  · intro same
    rw [same]
    exact ascends_parents key

/-- The places above a path are all listed unless a piece on the way ends in a colon. -/
theorem parents_path_iff {place : Place} (pieces : ∀ piece ∈ place, IsPiece piece) :
    parents place.path = place.higher.map Place.path ↔
      ∀ piece ∈ place.dropLast, piece.getLast? ≠ some colon := by
  induction place using List.reverseRecOn with
  | nil => decide
  | append_singleton above name ih =>
    have piecesAbove : ∀ piece ∈ above, IsPiece piece := fun piece member =>
      pieces piece (List.mem_append_left _ member)
    rw [parents_append pieces, Place.higher_append, List.map_cons, List.dropLast_concat,
      Place.forall_mem_iff_path piecesAbove, ← ih piecesAbove]
    split
    -- A slash stands behind the only ancestor listed, so that the place above is missed.
    case isTrue drive => simp [drive]
    case isFalse other => simp [other]

/-- Of every byte string whatever the way up ends, and passes through proper beginnings of it, each
shorter than the one before. Of an absolute path these are all the places above it, nearest first and
down to the root, exactly if no piece but the last ends in a colon. -/
theorem parents_nearest_first (key : Key) :
    (∀ higher, Ascends key higher ↔ higher = parents key) ∧
    (∀ above ∈ parents key, above <+: key ∧ above ≠ key) ∧
    (key :: parents key).Pairwise (fun longer shorter => shorter.length < longer.length) ∧
    (parents key).Nodup ∧
    ∀ place : Place, (∀ piece ∈ place, IsPiece piece) → key = place.path →
      (parents key = place.higher.map Place.path ↔
        ∀ piece ∈ place.dropLast, piece.getLast? ≠ some colon) ∧
      (place ≠ [] → (∀ piece ∈ place.dropLast, piece.getLast? ≠ some colon) →
        (parents key).getLast? = some [slash]) := by
  have descends := parents_length_descends key
  refine ⟨fun higher => ascends_iff, ?_, descends, ?_, ?_⟩
  · intro above member
    have shorter := length_of_mem_parents member
    refine ⟨prefix_of_mem_parents member, ?_⟩
    rintro rfl
    omega
  · apply (List.pairwise_cons.1 descends).2.imp
    rintro above _ shorter rfl
    omega
  · intro place pieces spelled
    subst spelled
    have all := parents_path_iff pieces
    refine ⟨all, fun nonempty clear => ?_⟩
    rw [all.2 clear, List.getLast?_map, Place.getLast?_higher nonempty]
    rfl

/-- Dots make no difference on the way up, nor does a colon inside a piece or at the end of the path. -/
theorem parents_of_dotted_path :
    let place : Place :=
      [Bytes.ofString ".", Bytes.ofString "a:b", Bytes.ofString "..", Bytes.ofString "c:"]
    let key := Bytes.ofString "/./a:b/../c:"
    (∀ piece ∈ place, IsPiece piece) ∧ key = place.path ∧
    (∀ piece ∈ place.dropLast, piece.getLast? ≠ some colon) ∧
    parents key = [Bytes.ofString "/./a:b/..", Bytes.ofString "/./a:b", Bytes.ofString "/.",
      Bytes.ofString "/"] := by
  intro place key
  have pieces : ∀ piece ∈ place, IsPiece piece := by decide
  have spelled : key = place.path := by decide
  have clear : ∀ piece ∈ place.dropLast, piece.getLast? ≠ some colon := by decide
  obtain ⟨_, _, _, _, absolute⟩ := parents_nearest_first key
  obtain ⟨all, _⟩ := absolute place pieces spelled
  exact ⟨pieces, spelled, clear, (all.2 clear).trans (by decide)⟩

/-- A piece that ends in a colon is taken for a drive, with nothing above it. -/
example : parents (Bytes.ofString "/a/b:/c/d") =
    [Bytes.ofString "/a/b:/c", Bytes.ofString "/a/b:/"] := by
  decide

end Key

end Loadable
