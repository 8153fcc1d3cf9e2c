import Loadable.Proofs.Course
/-!
Absolute paths against two working directories. With `posix` the directory is not looked at. With `nt`
it stays below the drive and the root of the path, and one `..` takes away the root, the next one the
drive: then the path goes on in the working directory.
-/
namespace Loadable

namespace Flavor

section Landing

variable {α : Type}

theorem climb_add (relative : Bool) (first second : Nat) (gathered : List (Component α)) :
    climb relative (first + second) gathered =
      climb relative second (climb relative first gathered) := by
  induction second with
  | zero => rfl
  | succ second ih => rw [Nat.add_succ, climb, ih, climb]

theorem climb_out {relative : Bool} {d : List α} {gathered : List (Component α)}
    (holds : Holds relative gathered) (levels : Nat) :
    climb relative (levels + 2) (.root :: .drive d :: gathered) = climb relative levels gathered := by
  have first : climb relative 2 (.root :: .drive d :: gathered) = gathered := by
    rcases holds with free | kept
    · simp [climb, advance, free]
    · simp [climb, advance, kept]
  rw [Nat.add_comm, climb_add, first]

variable [DecidableEq α] [PathLetter α] {path : List α}

/-- Where an absolute path has climbed to: its root, its bare drive, or a directory above the working
directory, which has then come to light. -/
def landing (f : Flavor) (path cwd : List α) : List (Component α) :=
  match f.components path, (Course.of (f.components path)).climbs with
  | .drive d :: .root :: _, 0 => [.drive d, .root]
  | .drive d :: .root :: _, 1 => [.drive d]
  | .drive _ :: .root :: _, levels + 2 =>
    (climb (!f.isAbsolute cwd) levels (f.components cwd).reverse).reverse
  | _, _ => [.root]

theorem join_drive (f : Flavor) (above rest : List (Component α)) (d : List α) :
    f.join (above ++ .drive d :: rest) = f.join (.drive d :: rest) := by
  rw [join, List.foldl_append]
  rfl

theorem components_lead (f : Flavor) (path : List α) :
    ∃ lead below, f.components path = lead ++ below ∧ (∀ c ∈ below, c.LeadsOn) ∧
      (lead = [] ∨ lead = [.root] ∨ ∃ d, lead = [.drive d] ∨ lead = [.drive d, .root]) := by
  unfold components
  generalize f.splitDrive path = parts
  obtain ⟨drive, rest⟩ := parts
  refine ⟨_, _, rfl, fun c => Component.leadsOn_of_mem_ofPieces, ?_⟩
  by_cases bare : drive = []
  · cases f.startsRooted rest || isShare drive <;> simp [bare]
  · cases f.startsRooted rest || isShare drive <;> simp [bare]

theorem components_of_isAbsolute_posix (absolute : posix.isAbsolute path = true) :
    ∃ below, posix.components path = .root :: below ∧ ∀ c ∈ below, c.LeadsOn := by
  obtain ⟨below, found, plain⟩ := components_of_isAbsolute absolute
  exact ⟨below, found, fun c member => Follows.leadsOn (.inl (plain c member))⟩

theorem components_of_isAbsolute_nt (absolute : nt.isAbsolute path = true) :
    ∃ d below, nt.components path = .drive d :: .root :: below ∧ ∀ c ∈ below, c.LeadsOn := by
  obtain ⟨d, rest, found⟩ : ∃ d rest, nt.components path = .drive d :: .root :: rest := by
    unfold isAbsolute at absolute
    split at absolute
    case h_1 never _ => cases never
    case h_2 d rest _ found => exact ⟨d, rest, found⟩
    case h_3 => cases absolute
  obtain ⟨lead, below, whole, leads, front⟩ := components_lead nt path
  rw [found] at whole
  refine ⟨d, rest, found, ?_⟩
  rcases front with rfl | rfl | ⟨e, rfl | rfl⟩
  · rw [List.nil_append] at whole
    exact (leads (.drive d) (whole ▸ List.mem_cons_self)).elim
  · cases whole
  · obtain ⟨_, behind⟩ := List.cons.inj whole
    change .root :: rest = below at behind
    exact (leads .root (behind ▸ List.mem_cons_self)).elim
  · obtain ⟨_, behind⟩ := List.cons.inj whole
    obtain ⟨_, rfl⟩ := List.cons.inj behind
    exact leads

/-- The working directory lies below the path's own drive and root until the path climbs. -/
theorem absolutize_nt {d : List α} {below : List (Component α)}
    (found : nt.components path = .drive d :: .root :: below) (leads : ∀ c ∈ below, c.LeadsOn)
    (cwd : List α) :
    nt.absolutize path cwd = nt.join
      ((climb (!nt.isAbsolute cwd) (Course.of below).climbs
        (.root :: .drive d :: (nt.components cwd).reverse)).reverse ++ (Course.of below).descent) := by
  have holds : Holds (!nt.isAbsolute cwd) (.root :: .drive d :: (nt.components cwd).reverse) :=
    .inr (List.cons_ne_nil _ _)
  rw [← foldl_advance_of holds leads, absolutize, gather_eq, found]
  rfl

theorem holds_components (cwd : List α) : Holds (!nt.isAbsolute cwd) (nt.components cwd).reverse := by
  cases found : nt.components cwd with
  | nil =>
    left
    simp [isAbsolute, found]
  | cons c rest =>
    right
    simp

theorem absolutize_landing {f : Flavor} (absolute : f.isAbsolute path = true) (cwd : List α) :
    f.absolutize path cwd =
      f.join (f.landing path cwd ++ (Course.of (f.components path)).descent) := by
  cases f with
  | posix =>
    obtain ⟨below, found, leads⟩ := components_of_isAbsolute_posix absolute
    have landed : posix.landing path cwd = [.root] := by simp [landing, found]
    rw [landed, absolutize, gather_rooted found, foldl_advance_root leads, found]
    rfl
  | nt =>
    obtain ⟨d, below, found, leads⟩ := components_of_isAbsolute_nt absolute
    have same : Course.of (nt.components path) = Course.of below := by rw [found]; rfl
    rw [absolutize_nt found leads, landing, same, found]
    cases climbed : (Course.of below).climbs with
    | zero =>
      have shape : (climb (!nt.isAbsolute cwd) 0
          (.root :: .drive d :: (nt.components cwd).reverse)).reverse ++ (Course.of below).descent =
          nt.components cwd ++ .drive d :: .root :: (Course.of below).descent := by simp [climb]
      rw [shape, join_drive]
      rfl
    | succ more =>
      cases more with
      | zero =>
        have shape : (climb (!nt.isAbsolute cwd) (0 + 1)
            (.root :: .drive d :: (nt.components cwd).reverse)).reverse ++ (Course.of below).descent =
            nt.components cwd ++ .drive d :: (Course.of below).descent := by simp [climb, advance]
        rw [shape, join_drive]
        rfl
      | succ levels => rw [climb_out (holds_components cwd)]

/-- A path that climbs at most over its own root goes on among its own components. -/
theorem landing_stays {f : Flavor} (absolute : f.isAbsolute path = true)
    (stays : f = .posix ∨ (Course.of (f.components path)).climbs ≤ 1) :
    ∃ kept, (∀ cwd, f.landing path cwd = kept) ∧ ∀ c ∈ kept, c ∈ f.components path := by
  cases f with
  | posix =>
    obtain ⟨below, found, _⟩ := components_of_isAbsolute_posix absolute
    exact ⟨[.root], fun cwd => by rw [landing, found], by simp [found]⟩
  | nt =>
    obtain ⟨d, below, found, _⟩ := components_of_isAbsolute_nt absolute
    have few := stays.resolve_left nofun
    obtain climbed | climbed : (Course.of (nt.components path)).climbs = 0 ∨
        (Course.of (nt.components path)).climbs = 1 := by omega
    · exact ⟨[.drive d, .root], fun cwd => by rw [landing, climbed, found], by simp [found]⟩
    · exact ⟨[.drive d], fun cwd => by rw [landing, climbed, found], by simp [found]⟩

theorem head?_foldl_push (f : Flavor) {buffer : List α} {a : α} (begins : buffer.head? = some a)
    (names : List (List α)) : ((names.map .name).foldl f.push buffer).head? = some a := by
  have leads : ∀ c ∈ names.map Component.name, c.LeadsOn := by
    intro c member
    obtain ⟨name, _, rfl⟩ := List.mem_map.1 member
    trivial
  obtain ⟨rest, whole⟩ := prefix_foldl_push f buffer leads
  rw [← whole, List.head?_append, begins]
  rfl

end Landing

section Deep

theorem climb_relative {α : Type} (levels : Nat) (gathered : List (Component α)) :
    climb true levels gathered = gathered.drop levels := by
  induction levels with
  | zero => rfl
  | succ levels ih => simp [climb, ih, advance]

def deepDirectory (top : Char) (levels : Nat) : Text :=
  .scalar top :: (List.replicate levels [backslash, .scalar 'a']).flatten

theorem splitAt_levels {front : Text} (clear : ∀ a ∈ front, nt.isSeparator a = false) (levels : Nat) :
    splitAt nt.isSeparator (front ++ (List.replicate levels [backslash, .scalar 'a']).flatten) =
      front :: List.replicate levels [.scalar 'a'] := by
  induction levels generalizing front with
  | zero => simp [splitAt_clear clear]
  | succ levels ih =>
    have next : ∀ a ∈ [(.scalar 'a' : CodePoint)], nt.isSeparator a = false := by decide
    have separates : nt.isSeparator (backslash : CodePoint) = true := by decide
    rw [List.replicate_succ, List.flatten_cons, List.cons_append, splitAt_append separates,
      splitAt_clear clear, ih next, List.replicate_succ]
    rfl

theorem components_deepDirectory {top : Char} (clear : nt.isSeparator (.scalar top : CodePoint) = false)
    (other : top ≠ '.') (levels : Nat) :
    nt.components (deepDirectory top levels) =
      .name [.scalar top] :: List.replicate levels (.name [.scalar 'a']) := by
  have front : ∀ a ∈ [(.scalar top : CodePoint)], nt.isSeparator a = false := by simpa using clear
  have bare : nt.splitDrive (deepDirectory top levels) = ([], deepDirectory top levels) := by
    cases levels with
    | zero => rfl
    | succ levels =>
      have away : (backslash : CodePoint) ≠ colon := by decide
      change nt.splitDrive ((.scalar top : CodePoint) :: backslash :: _) = _
      rw [splitDrive, clear, if_neg (by simp), if_neg away]
      rfl
  have pieces : splitAt nt.isSeparator (deepDirectory top levels) =
      [.scalar top] :: List.replicate levels [.scalar 'a'] := splitAt_levels front levels
  have unrooted : nt.startsRooted (deepDirectory top levels) = false := clear
  have first : Component.ofPiece? true [(.scalar top : CodePoint)] = some (.name [.scalar top]) := by
    simp [Component.ofPiece?, dot, PathLetter.ascii, other]
  have later : Component.ofPiece? false [(.scalar 'a' : CodePoint)] = some (.name [.scalar 'a']) := by
    decide
  rw [components, bare]
  simp only [unrooted, pieces, isShare, Component.ofPieces, Bool.or_self, Bool.not_false, first]
  simp [List.filterMap_replicate_of_some later]

theorem head?_absolutize_deepDirectory {path : Text} (absolute : nt.isAbsolute path = true) {levels : Nat}
    (climbed : (Course.of (nt.components path)).climbs = levels + 2) (top : Char)
    (clear : nt.isSeparator (.scalar top : CodePoint) = false) (other : top ≠ '.') :
    (nt.absolutize path (deepDirectory top levels)).head? = some (.scalar top) := by
  obtain ⟨d, below, found, _⟩ := components_of_isAbsolute_nt absolute
  have read := components_deepDirectory clear other levels
  have relative : nt.isAbsolute (deepDirectory top levels) = false := by simp [isAbsolute, read]
  have landed : nt.landing path (deepDirectory top levels) = [.name [.scalar top]] := by
    rw [landing, climbed, found]
    simp [relative, read, climb_relative]
  rw [absolutize_landing absolute, landed]
  exact head?_foldl_push nt rfl _

/-- Two directories give an absolute path the same result if and only if its `..` climb at most over
its own root: with `nt` a second one in excess leads on in the directory. -/
theorem absolutize_absolute_iff {f : Flavor} {path : Text} (absolute : f.isAbsolute path = true) :
    (∀ cwd, f.absolutize path cwd =
        f.join (f.landing path cwd ++ (Course.of (f.components path)).descent)) ∧
      ((∀ cwd other, f.absolutize path cwd = f.absolutize path other) ↔
        f = .posix ∨ (Course.of (f.components path)).climbs ≤ 1) ∧
      (f = .posix ∨ (Course.of (f.components path)).climbs ≤ 1 → ∀ cwd,
        ∀ c ∈ f.landing path cwd ++ (Course.of (f.components path)).descent,
          c ∈ f.components path) := by
  refine ⟨absolutize_landing absolute, ⟨?_, ?_⟩, ?_⟩
  · intro agree
    cases f with
    | posix => exact .inl rfl
    | nt =>
      right
      by_contra many
      have least : 2 ≤ (Course.of (nt.components path)).climbs := by omega
      obtain ⟨levels, climbed⟩ := Nat.exists_eq_add_of_le' least
      have first := head?_absolutize_deepDirectory absolute climbed 'b' (by decide) (by decide)
      have second := head?_absolutize_deepDirectory absolute climbed 'c' (by decide) (by decide)
      rw [agree _ (deepDirectory 'c' levels), second] at first
      cases first
  · intro stays cwd other
    obtain ⟨kept, landed, _⟩ := landing_stays absolute stays
    rw [absolutize_landing absolute, absolutize_landing absolute, landed, landed]
  · intro stays cwd c member
    obtain ⟨kept, landed, own⟩ := landing_stays absolute stays
    rw [landed] at member
    rcases List.mem_append.1 member with stands | goes
    · exact own c stands
    · exact Course.mem_of_mem_descent goes

theorem own_root_kept :
    nt.isAbsolute (Text.ofString "C:\\a\\..\\b") = true ∧
      ∀ cwd, nt.absolutize (Text.ofString "C:\\a\\..\\b") cwd = Text.ofString "C:\\b" := by
  have absolute : nt.isAbsolute (Text.ofString "C:\\a\\..\\b") = true := by decide
  obtain ⟨_, agree, _⟩ := absolutize_absolute_iff absolute
  refine ⟨absolute, fun cwd => ?_⟩
  rw [agree.2 (.inr (by decide)) cwd []]
  decide

/-- Two levels up from the root of `C:` is the working directory, on its own drive. -/
theorem directory_comes_to_light :
    nt.isAbsolute (Text.ofString "C:\\..\\..\\x") = true ∧
      nt.absolutize (Text.ofString "C:\\..\\..\\x") (Text.ofString "D:\\w") =
        Text.ofString "D:\\w\\x" ∧
      nt.absolutize (Text.ofString "C:\\..\\..\\x") (Text.ofString "E:\\") =
        Text.ofString "E:\\x" := by
  decide

end Deep

end Flavor

end Loadable
