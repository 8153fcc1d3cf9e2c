import Loadable.Proofs.Canonical
/-!
Resolving in stages. What resolving has gathered can be read back from what it writes, so a path that
goes on behind a slash leads from there to where the whole path leads.
-/
namespace Loadable

namespace Flavor

variable {α : Type}

theorem mem_of_mem_foldl_advance {path gathered : List (Component α)} {c : Component α}
    (member : c ∈ path.foldl (advance true) gathered) : c ∈ gathered ∨ c ∈ path := by
  induction path generalizing gathered with
  | nil => exact .inl member
  | cons d path ih =>
    rcases ih member with before | later
    · have origin : c ∈ gathered ∨ c = d := by
        cases d with
        | here => exact .inl before
        | up =>
          have popped : advance true gathered .up = gathered.tail := by simp [advance]
          rw [popped] at before
          exact .inl (List.mem_of_mem_tail before)
        | _ => exact (List.mem_cons.1 before).symm
      rcases origin with before | rfl
      · exact .inl before
      · exact .inr List.mem_cons_self
    · exact .inr (List.mem_cons_of_mem d later)

variable [PathLetter α] [DecidableEq α]

/-- What a path's components begin with that its pieces alone do not tell: a root, or a `.` that is
kept. -/
def front (path : List α) : List (Component α) :=
  if posix.startsRooted path then [.root]
  else if (splitAt posix.isSeparator path).head? = some [dot] then [.here]
  else []

theorem components_front (path : List α) :
    posix.components path =
      front path ++ (splitAt posix.isSeparator path).filterMap (Component.ofPiece? false) := by
  rw [components_posix, front]
  cases pieces : splitAt posix.isSeparator path with
  | nil => exact absurd pieces (splitAt_ne_nil _ path)
  | cons first others =>
    cases posix.startsRooted path with
    | true =>
      simp only [if_true, Component.ofPieces, Bool.not_true, List.filterMap_cons]
      cases Component.ofPiece? false first <;> rfl
    | false =>
      by_cases leading : first = [dot]
      · simp [Component.ofPieces, leading, Component.ofPiece?]
      · simp only [Component.ofPieces, List.head?_cons, Option.some.injEq, leading, if_false,
          Bool.not_false, Bool.false_eq_true, Component.ofPiece_of_ne_dot leading,
          List.filterMap_cons, List.nil_append]
        cases Component.ofPiece? false first <;> rfl

theorem front_append {path : List α} (nonempty : path ≠ []) (more : List α) :
    front (path ++ slash :: more) = front path := by
  have rooted : posix.startsRooted (path ++ slash :: more) = posix.startsRooted path := by
    cases path with
    | nil => exact absurd rfl nonempty
    | cons a path => rfl
  have first : (splitAt posix.isSeparator (path ++ slash :: more)).head? =
      (splitAt posix.isSeparator path).head? := by
    rw [splitAt_append (posix_separator_iff.2 rfl)]
    exact List.head?_append_of_ne_nil _ (splitAt_ne_nil _ path)
  rw [front, front, rooted, first]

/-- A path that goes on behind a slash has the components of its parts, but for a `.` that the second
part begins with. -/
theorem components_append {path : List α} (nonempty : path ≠ []) (more : List α) :
    posix.components (path ++ slash :: more) = posix.components path ++
      (splitAt posix.isSeparator more).filterMap (Component.ofPiece? false) := by
  rw [components_front, front_append nonempty, splitAt_append (posix_separator_iff.2 rfl),
    List.filterMap_append, ← List.append_assoc, ← components_front]

theorem foldl_components {more : List α} (unrooted : posix.startsRooted more = false) (relative : Bool)
    (gathered : List (Component α)) :
    (posix.components more).foldl (advance relative) gathered =
      ((splitAt posix.isSeparator more).filterMap (Component.ofPiece? false)).foldl
        (advance relative) gathered := by
  rw [components_front, List.foldl_append, front, unrooted]
  by_cases leading : (splitAt posix.isSeparator more).head? = some [dot]
  · simp [leading, advance]
  · simp [leading]

theorem follows_of_unrooted {path : List α} (unrooted : posix.startsRooted path = false) :
    ∀ c ∈ posix.components path, Follows c := by
  rcases components_cases path with ⟨rest, rooted, _⟩ | follows
  · rw [components_front, front, unrooted] at rooted
    have plain : ∀ c ∈ (splitAt posix.isSeparator path).filterMap (Component.ofPiece? false),
        c.Plain := fun c => plain_of_mem_pieces fun piece => slash_not_mem_of_mem_splitAt
    by_cases leading : (splitAt posix.isSeparator path).head? = some [dot]
    · simp [leading] at rooted
    · simp only [leading, Bool.false_eq_true, if_false, List.nil_append] at rooted
      exact (plain .root (rooted ▸ List.mem_cons_self)).elim
  · exact follows

theorem isAbsolute_eq (path : List α) : posix.isAbsolute path = posix.startsRooted path := by
  cases rooted : posix.startsRooted path with
  | true =>
    have found := components_front path
    rw [front, rooted] at found
    exact isAbsolute_of_components found
  | false =>
    by_contra other
    have absolute : posix.isAbsolute path = true := by simpa using other
    obtain ⟨above, found, _⟩ := components_of_isAbsolute absolute
    exact not_rooted_of_follows (follows_of_unrooted rooted) found

theorem start_relative_iff (path cwd : List α) :
    (posix.start (posix.components path) cwd).1 = true ↔
      (∀ c ∈ posix.components path, Follows c) ∧ posix.isAbsolute cwd = false := by
  rcases components_cases path with ⟨rest, rooted, _⟩ | follows
  · constructor
    · simp [rooted, Flavor.start]
    · rintro ⟨follows, _⟩
      exact absurd rooted (not_rooted_of_follows follows)
  · rw [start_unrooted follows, Bool.not_eq_true']
    exact ⟨fun relative => ⟨follows, relative⟩, fun both => both.2⟩

/-- What starts at a root could have started from an absolute directory. -/
theorem gather_of_rooted {path cwd : List α}
    (rooted : (posix.start (posix.components path) cwd).1 = false) :
    ∃ base : List α, posix.isAbsolute base = true ∧ posix.gather path cwd = posix.gather path base := by
  cases absolute : posix.isAbsolute cwd with
  | true => exact ⟨cwd, absolute, rfl⟩
  | false =>
    rcases components_cases path with ⟨below, found, _⟩ | follows
    · refine ⟨[slash], isAbsolute_of_components (components_rooted []), ?_⟩
      rw [gather_rooted found, gather_rooted found]
    · rw [(start_relative_iff path cwd).2 ⟨follows, absolute⟩] at rooted
      cases rooted

/-- What resolving gathers can be read back, and stands behind a root if it was gathered from one. -/
theorem gather_settled (path cwd : List α) : Settled (posix.gather path cwd).reverse ∧
    ((posix.start (posix.components path) cwd).1 = false ↔
      ∃ rest, (posix.gather path cwd).reverse = .root :: rest) := by
  cases flag : (posix.start (posix.components path) cwd).1 with
  | false =>
    obtain ⟨base, absolute, same⟩ := gather_of_rooted flag
    rw [same, gather_standing absolute]
    exact ⟨.rooted (settled_standing absolute), by simp⟩
  | true =>
    obtain ⟨follows, relative⟩ := (start_relative_iff path cwd).1 flag
    have gathered : posix.gather path cwd =
        (posix.components path).foldl (advance true) (posix.components cwd).reverse := by
      rw [gather_of_follows follows, relative, Bool.not_false]
    rw [gathered]
    refine ⟨settled_relative follows relative, Bool.noConfusion, ?_⟩
    rintro ⟨rest, found⟩
    have inside : .root ∈ ((posix.components path).foldl (advance true)
        (posix.components cwd).reverse).reverse := found ▸ List.mem_cons_self
    rcases mem_of_mem_foldl_advance (List.mem_reverse.1 inside) with above | below
    · rcases components_cases cwd with ⟨others, absolute, _⟩ | unrooted
      · rw [isAbsolute_of_components absolute] at relative
        cases relative
      · exact (unrooted _ (List.mem_reverse.1 above)).leadsOn.elim
    · exact (follows _ below).leadsOn.elim

theorem components_absolutize (apart : (slash : α) ≠ dot) (path cwd : List α) :
    posix.components (posix.absolutize path cwd) = (posix.gather path cwd).reverse := by
  have settled := (gather_settled path cwd).1
  rw [absolutize, join_settled apart settled, components_write apart settled]

theorem start_absolutize (apart : (slash : α) ≠ dot) {more : List α}
    (unrooted : posix.startsRooted more = false) (path cwd : List α) :
    posix.start (posix.components more) (posix.absolutize path cwd) =
      ((posix.start (posix.components path) cwd).1, posix.gather path cwd) := by
  have read := components_absolutize apart path cwd
  have follows := follows_of_unrooted unrooted
  have begins := (gather_settled path cwd).2
  have absolute : posix.isAbsolute (posix.absolutize path cwd) =
      !(posix.start (posix.components path) cwd).1 := by
    cases flag : (posix.start (posix.components path) cwd).1 with
    | false =>
      obtain ⟨rest, found⟩ := begins.1 flag
      exact isAbsolute_of_components (read.trans found)
    | true =>
      by_contra other
      have rooted : posix.isAbsolute (posix.absolutize path cwd) = true := by simpa using other
      obtain ⟨rest, found, _⟩ := components_of_isAbsolute rooted
      rw [begins.2 ⟨rest, read.symm.trans found⟩] at flag
      cases flag
  rw [start_unrooted follows, absolute, read, List.reverse_reverse, Bool.not_not]

theorem start_append {tail : List (Component α)} (plain : ∀ c ∈ tail, c.Plain)
    (components : List (Component α)) (cwd : List α) :
    posix.start (components ++ tail) cwd = posix.start components cwd := by
  cases components with
  | nil =>
    cases tail with
    | nil => rfl
    | cons c tail =>
      cases c with
      | root => exact (plain _ List.mem_cons_self).elim
      | _ => rfl
  | cons c components => cases c <;> rfl

theorem gather_append {path : List α} (nonempty : path ≠ []) {more : List α}
    (unrooted : posix.startsRooted more = false) (cwd : List α) :
    posix.gather (path ++ slash :: more) cwd = (posix.components more).foldl
      (advance (posix.start (posix.components path) cwd).1) (posix.gather path cwd) := by
  have plain : ∀ c ∈ (splitAt posix.isSeparator more).filterMap (Component.ofPiece? false),
      c.Plain := fun c => plain_of_mem_pieces fun piece => slash_not_mem_of_mem_splitAt
  rw [foldl_components unrooted, gather_eq, components_append nonempty, start_append plain]
  exact List.foldl_append

/-- To resolve a path and to go on from there is to resolve the two joined by a slash, whatever the
working directory is. -/
theorem absolutize_in_stages {path more : Text} (nonempty : path ≠ [])
    (unrooted : more.head? ≠ some slash) (cwd : Text) :
    posix.absolutize more (posix.absolutize path cwd) =
      posix.absolutize (path ++ slash :: more) cwd := by
  have starts : posix.startsRooted more = false :=
    Bool.eq_false_iff.2 fun rooted => unrooted (startsRooted_iff.1 rooted)
  have resumed : posix.gather more (posix.absolutize path cwd) = (posix.components more).foldl
      (advance (posix.start (posix.components path) cwd).1) (posix.gather path cwd) := by
    rw [gather_eq, start_absolutize slash_ne_dot_text starts]
  rw [absolutize, resumed, absolutize, gather_append nonempty starts]

/-- A `.` and a `..` of a relative directory stay where they are until they are climbed over. -/
theorem stages_of_dotted_directory :
    Text.ofString "a/../.." ≠ [] ∧ (Text.ofString "./../x").head? ≠ some slash ∧
      posix.absolutize (Text.ofString "./../x")
          (posix.absolutize (Text.ofString "a/../..") (Text.ofString "./../b")) =
        posix.absolutize (Text.ofString "a/../.." ++ slash :: Text.ofString "./../x")
          (Text.ofString "./../b") ∧
      posix.absolutize (Text.ofString "a/../.." ++ slash :: Text.ofString "./../x")
          (Text.ofString "./../b") = Text.ofString "./x" := by
  have nonempty : Text.ofString "a/../.." ≠ [] := by decide
  have unrooted : (Text.ofString "./../x").head? ≠ some slash := by decide
  exact ⟨nonempty, unrooted, absolutize_in_stages nonempty unrooted _, by decide⟩

end Flavor

end Loadable
