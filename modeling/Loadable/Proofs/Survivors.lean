import Loadable.Proofs.Stages
import Mathlib.Data.List.Sort
/-!
What a `posix` path is resolved to, said without resolving it: of the names on its way those that no
`..` cancels, in order. The names that resolving has gathered are at every moment the ones that are
not cancelled so far, the nearest first.
-/
namespace Loadable

namespace Flavor

variable {α : Type} [PathLetter α]

section Reference

variable [DecidableEq α]

/-- The pieces of a path between slashes that lead anywhere: names and `..`. -/
def stops (path : List α) : List (List α) :=
  (splitAt (· = slash) path).filter fun piece => piece ≠ [] ∧ piece ≠ [dot]

/-- The stops of a path, preceded by those of the working directory unless a slash stands in front. -/
def way (path cwd : List α) : List (List α) :=
  if path.head? = some slash then stops path else stops cwd ++ stops path

/-- The stop at a position is a name that none of the `..` among the first `read` stops cancels. Each
`..` cancels the nearest name before it that no earlier one cancels; where there is no such name, it
cancels nothing. -/
def Survives (way : List (List α)) : (read : Nat) → Nat → Prop
  | 0, _ => False
  | read + 1, i =>
    (i = read ∧ ∃ stop, stop ∈ way[read]? ∧ stop ≠ [dot, dot]) ∨
      (Survives way read i ∧
        ¬(way[read]? = some [dot, dot] ∧ ∀ j < read, Survives way read j → j ≤ i))

instance decidableSurvives (way : List (List α)) :
    (read i : Nat) → Decidable (Survives way read i)
  | 0, _ => .isFalse not_false
  | read + 1, i =>
    have := decidableSurvives way read
    inferInstanceAs (Decidable ((i = read ∧ ∃ stop, stop ∈ way[read]? ∧ stop ≠ [dot, dot]) ∨
      (Survives way read i ∧
        ¬(way[read]? = some [dot, dot] ∧ ∀ j < read, Survives way read j → j ≤ i))))

/-- The names that are left when the whole way has been read, in order. -/
def survivors (way : List (List α)) : List (List α) :=
  ((List.range way.length).filter (Survives way way.length ·)).filterMap (way[·]?)

end Reference

section Matching

variable {way : List (List α)} {read i : Nat}

theorem Survives.lt (survives : Survives way read i) : i < read := by
  induction read with
  | zero => exact survives.elim
  | succ read ih =>
    rcases survives with ⟨rfl, _⟩ | ⟨before, _⟩
    · exact Nat.lt_succ_self i
    · exact Nat.lt_succ_of_lt (ih before)

theorem survives_name {name : List α} (here : way[read]? = some name) (other : name ≠ [dot, dot]) :
    Survives way (read + 1) i ↔ i = read ∨ Survives way read i := by
  simp [Survives, here, other]

theorem survives_up (here : way[read]? = some [dot, dot]) :
    Survives way (read + 1) i ↔ Survives way read i ∧ ∃ j, Survives way read j ∧ i < j := by
  simp only [Survives, here, Option.mem_some_iff, exists_eq_left', ne_eq, not_true, and_false,
    false_or, true_and, not_forall, Nat.not_le]
  constructor
  · rintro ⟨stands, j, _, later, behind⟩
    exact ⟨stands, j, later, behind⟩
  · rintro ⟨stands, j, later, behind⟩
    exact ⟨stands, j, later.lt, later, behind⟩

variable [DecidableEq α]

def ofStop (stop : List α) : Component α :=
  if stop = [dot, dot] then .up else .name stop

theorem follow_name {name : List α} (other : name ≠ [dot, dot]) (course : Course α) :
    (course.follow (ofStop name)).names = name :: course.names := by
  simp [ofStop, other, Course.follow]

theorem follow_up (course : Course α) :
    (course.follow (ofStop [dot, dot])).names = course.names.tail := by
  rw [ofStop, if_pos rfl, Course.follow]
  cases names : course.names with
  | nil => rfl
  | cons last before => rfl

/-- The names on the course are those at the surviving positions, the last of them in front. -/
theorem course_survives (way : List (List α)) (most : read ≤ way.length) :
    ∃ positions : List Nat, positions.Pairwise (· > ·) ∧
      (∀ i, i ∈ positions ↔ Survives way read i) ∧
      (Course.of ((way.take read).map ofStop)).names = positions.filterMap (way[·]?) := by
  induction read with
  | zero => exact ⟨[], .nil, fun i => by simp [Survives], rfl⟩
  | succ read ih =>
    obtain ⟨positions, sorted, stand, names⟩ := ih (Nat.le_of_succ_le most)
    have here : way[read]? = some way[read] := List.getElem?_eq_getElem most
    have course : Course.of ((way.take (read + 1)).map ofStop) =
        (Course.of ((way.take read).map ofStop)).follow (ofStop way[read]) := by
      rw [List.take_add_one, here, Option.toList_some, List.map_append, Course.of, List.foldl_append]
      rfl
    rw [course]
    by_cases up : way[read] = [dot, dot]
    · rw [up] at here ⊢
      rw [follow_up, names]
      cases positions with
      | nil =>
        refine ⟨[], .nil, fun i => ?_, rfl⟩
        rw [survives_up here, ← stand]
        simp
      | cons last before =>
        obtain ⟨least, rest⟩ := List.pairwise_cons.1 sorted
        refine ⟨before, rest, fun i => ?_, ?_⟩
        · rw [survives_up here, ← stand, List.mem_cons]
          constructor
          · intro member
            exact ⟨.inr member, last, (stand last).1 List.mem_cons_self, least i member⟩
          · rintro ⟨rfl | member, j, later, behind⟩
            · rcases List.mem_cons.1 ((stand j).2 later) with rfl | earlier
              · exact absurd behind (Nat.lt_irrefl _)
              · exact absurd behind (Nat.lt_asymm (least j earlier))
            · exact member
        · have within : last < way.length :=
            Nat.lt_of_lt_of_le ((stand last).1 List.mem_cons_self).lt (Nat.le_of_succ_le most)
          rw [List.filterMap_cons, List.getElem?_eq_getElem within]
          rfl
    · refine ⟨read :: positions, List.pairwise_cons.2 ⟨?_, sorted⟩, fun i => ?_, ?_⟩
      · exact fun i member => ((stand i).1 member).lt
      · rw [List.mem_cons, stand, survives_name here up]
      · rw [follow_name up, names, List.filterMap_cons, here]

theorem course_names (way : List (List α)) :
    (Course.of (way.map ofStop)).names = (survivors way).reverse := by
  obtain ⟨positions, sorted, stand, names⟩ := course_survives way (Nat.le_refl way.length)
  rw [List.take_length] at names
  have increasing : ((List.range way.length).filter (Survives way way.length ·)).Pairwise (· < ·) :=
    List.pairwise_lt_range.filter _
  have same : positions =
      ((List.range way.length).filter (Survives way way.length ·)).reverse := by
    refine sorted.eq_of_mem_iff (List.pairwise_reverse.2 increasing) fun i => ?_
    rw [List.mem_reverse, List.mem_filter, decide_eq_true_eq, List.mem_range, stand]
    exact ⟨fun survives => ⟨survives.lt, survives⟩, fun both => both.2⟩
  rw [names, same, List.filterMap_reverse]
  rfl

end Matching

section Resolved

variable [DecidableEq α] {path cwd : List α}

theorem pieces_eq_stops (path : List α) :
    (splitAt posix.isSeparator path).filterMap (Component.ofPiece? false) =
      (stops path).map ofStop := by
  change (splitAt posix.isSeparator path).filterMap (Component.ofPiece? false) =
    ((splitAt posix.isSeparator path).filter fun piece => piece ≠ [] ∧ piece ≠ [dot]).map ofStop
  induction splitAt posix.isSeparator path with
  | nil => rfl
  | cons piece pieces ih =>
    by_cases empty : piece = []
    · simpa [empty, Component.ofPiece?] using ih
    by_cases here : piece = [dot]
    · simpa [here, Component.ofPiece?] using ih
    · have read : Component.ofPiece? false piece = some (ofStop piece) := by
        by_cases up : piece = [dot, dot] <;> simp [Component.ofPiece?, ofStop, empty, here, up]
      rw [List.filterMap_cons_some read, ih, List.filter_cons_of_pos (by simp [empty, here]),
        List.map_cons]

theorem components_stops (path : List α) :
    posix.components path = front path ++ (stops path).map ofStop := by
  rw [components_front, pieces_eq_stops]

theorem plain_stops (path : List α) : ∀ c ∈ (stops path).map ofStop, c.Plain := by
  rw [← pieces_eq_stops]
  exact fun c => plain_of_mem_pieces fun piece => slash_not_mem_of_mem_splitAt

theorem plain_way (path cwd : List α) : ∀ c ∈ (way path cwd).map ofStop, c.Plain := by
  rw [way]
  split
  · exact plain_stops path
  · rw [List.map_append]
    exact fun c member =>
      (List.mem_append.1 member).elim (plain_stops cwd c) (plain_stops path c)

theorem isName_of_mem_survivors {name : List α} (member : name ∈ survivors (way path cwd)) :
    IsName name := by
  rw [← List.mem_reverse, ← course_names] at member
  exact plain_way path cwd _
    ((Course.name_mem_of_mem_foldl member).resolve_left List.not_mem_nil)

theorem components_names (down : [dot, dot] ∉ splitAt (· = slash) cwd) :
    posix.components cwd = front cwd ++ (stops cwd).map .name := by
  rw [components_stops]
  congr 1
  refine List.map_congr_left fun stop member => ?_
  have other : stop ≠ [dot, dot] := by
    rintro rfl
    exact down (List.mem_of_mem_filter member)
  rw [ofStop, if_neg other]

theorem foldl_follow_components (unrooted : posix.startsRooted path = false) (course : Course α) :
    (posix.components path).foldl Course.follow course =
      ((stops path).map ofStop).foldl Course.follow course := by
  rw [components_stops, List.foldl_append, front, unrooted]
  by_cases leading : (splitAt posix.isSeparator path).head? = some [dot]
  · simp [leading, Course.follow]
  · simp [leading]

theorem descent_survivors (way : List (List α)) :
    (Course.of (way.map ofStop)).descent = (survivors way).map .name := by
  rw [Course.descent, course_names, List.reverse_reverse]

theorem gather_way_rooted (rooted : posix.startsRooted path = true) (cwd : List α) :
    (posix.gather path cwd).reverse = .root :: (survivors (way path cwd)).map .name := by
  have found : posix.components path = .root :: (stops path).map ofStop := by
    rw [components_stops, front, rooted]
    rfl
  have leads : ∀ c ∈ (stops path).map ofStop, c.LeadsOn := fun c member =>
    Follows.leadsOn (.inl (plain_stops path c member))
  rw [gather_rooted found, foldl_advance_root leads, descent_survivors, way,
    if_pos (startsRooted_iff.1 rooted)]

theorem gather_way_unrooted (unrooted : posix.startsRooted path = false)
    (down : [dot, dot] ∉ splitAt (· = slash) cwd)
    (bare : (splitAt (· = slash) cwd).head? ≠ some [dot]) :
    (posix.gather path cwd).reverse =
      (if posix.startsRooted cwd then [.root] else []) ++ (survivors (way path cwd)).map .name := by
  have follows := follows_of_unrooted unrooted
  have leads : ∀ c ∈ posix.components path, c.LeadsOn := fun c member => (follows c member).leadsOn
  have lead : front cwd = if posix.startsRooted cwd then [.root] else [] := by
    rw [front]
    congr 1
    exact if_neg bare
  have holds : Holds (!posix.startsRooted cwd) (front cwd) := by
    rw [lead]
    cases posix.startsRooted cwd with
    | true => exact .inr (List.cons_ne_nil _ _)
    | false => exact .inl rfl
  have stays : advance (!posix.startsRooted cwd) (front cwd) .up = front cwd := by
    rw [lead]
    cases posix.startsRooted cwd <;> rfl
  have reversed : (front cwd).reverse = front cwd := by
    rw [lead]
    cases posix.startsRooted cwd <;> rfl
  -- The names of the directory are a course already run when the path begins.
  have begun : (posix.components cwd).reverse =
      (stops cwd).reverse.map .name ++ climb (!posix.startsRooted cwd) 0 (front cwd) := by
    rw [components_names down, List.reverse_append, reversed, List.map_reverse]
    rfl
  have run := foldl_advance_course holds leads { names := (stops cwd).reverse }
  have whole : ((posix.components path).foldl Course.follow { names := (stops cwd).reverse }).names =
      (survivors (way path cwd)).reverse := by
    have names : (stops cwd).map ofStop = (stops cwd).map .name := by
      have twice := components_stops cwd
      rw [components_names down, List.append_cancel_left_eq] at twice
      exact twice.symm
    have other : path.head? ≠ some slash := fun slashed => by
      rw [startsRooted_iff.2 slashed] at unrooted
      cases unrooted
    rw [foldl_follow_components unrooted, ← course_names, way, if_neg other, List.map_append,
      Course.of, List.foldl_append, names, Course.foldl_follow_names, List.append_nil]
  rw [gather_of_follows follows, isAbsolute_eq, begun, run, whole, climb_stays stays, List.reverse_append, reversed, ← List.map_reverse,
    List.reverse_reverse, lead]

/-- From a directory without `..` that does not begin with a `.`, the names that no `..` cancels are
left, behind a root if a slash stands in front of the path or of the directory. -/
theorem gather_survivors (down : [dot, dot] ∉ splitAt (· = slash) cwd)
    (bare : (splitAt (· = slash) cwd).head? ≠ some [dot]) :
    (posix.gather path cwd).reverse =
      (if path.head? = some slash ∨ cwd.head? = some slash then [.root] else []) ++
        (survivors (way path cwd)).map .name := by
  cases rooted : posix.startsRooted path with
  | true =>
    rw [gather_way_rooted rooted, if_pos (.inl (startsRooted_iff.1 rooted))]
    rfl
  | false =>
    have other : path.head? ≠ some slash := fun slashed => by
      rw [startsRooted_iff.2 slashed] at rooted
      cases rooted
    simp [gather_way_unrooted rooted down bare, other, startsRooted_iff]

end Resolved

/-- From a directory without `..` that does not begin with a `.`, a path is resolved to a slash, if
one stands in front of either, and then the names of its way that no `..` cancels. -/
theorem absolutize_survivors {path cwd : Text} (down : [dot, dot] ∉ splitAt (· = slash) cwd)
    (bare : (splitAt (· = slash) cwd).head? ≠ some [dot]) :
    posix.absolutize path cwd =
      (if path.head? = some slash ∨ cwd.head? = some slash then [slash] else []) ++
        joinNames (survivors (way path cwd)) := by
  have plain : ∀ c ∈ (survivors (way path cwd)).map Component.name, c.Plain := by
    intro c member
    obtain ⟨name, survives, rfl⟩ := List.mem_map.1 member
    exact isName_of_mem_survivors survives
  rw [absolutize, gather_survivors down bare]
  by_cases slashed : path.head? = some slash ∨ cwd.head? = some slash
  · rw [if_pos slashed, if_pos slashed]
    exact (join_settled slash_ne_dot_text (.rooted plain)).trans (write_map_name _)
  · rw [if_neg slashed, if_neg slashed]
    exact (join_settled slash_ne_dot_text (.bare plain)).trans
      ((write_bare plain).trans (congrArg joinNames (written_names _)))

/-- The first `..` cancels the name of the directory, the second one the name before it. -/
theorem survivors_of_dotted_path :
    [dot, dot] ∉ splitAt (· = slash) (Text.ofString "/a") ∧
      (splitAt (· = slash) (Text.ofString "/a")).head? ≠ some [dot] ∧
      survivors (way (Text.ofString "../x/./y/..") (Text.ofString "/a")) = [Text.ofString "x"] ∧
      posix.absolutize (Text.ofString "../x/./y/..") (Text.ofString "/a") = Text.ofString "/x" := by
  have down : [dot, dot] ∉ splitAt (· = slash) (Text.ofString "/a") := by decide
  have bare : (splitAt (· = slash) (Text.ofString "/a")).head? ≠ some [dot] := by decide
  have left : survivors (way (Text.ofString "../x/./y/..") (Text.ofString "/a")) =
      [Text.ofString "x"] := by decide
  refine ⟨down, bare, left, (absolutize_survivors down bare).trans ?_⟩
  rw [left]
  decide

end Flavor

end Loadable
