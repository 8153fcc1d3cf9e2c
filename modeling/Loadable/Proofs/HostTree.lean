import Loadable.Proofs.HostWalk
import Mathlib.Data.List.Induction
/-!
The host as a tree: directories stand in directories, and the process works in one. Then a path that
is followed to its end leads to a file or a directory, never to a link.
-/
namespace Loadable

namespace Host

variable {host : Host} {place dir : Place}

/-- Directories stand in directories, and the process works in one. -/
structure IsTree (host : Host) : Prop where
  above : ∀ {place}, host.IsDirectoryAt place → host.IsDirectoryAt place.dropLast
  cwd : host.IsDirectoryAt host.cwd

def Followed (spot : Except HostFailure Spot) : Prop :=
  ∀ place target, spot ≠ .ok (.node place (.link target))

theorem followed_error (failure : HostFailure) : Followed (.error failure) := by
  simp [Followed]

theorem walkStart_isDirectoryAt {dir : Place} (stands : host.IsDirectoryAt dir) (path : Bytes) :
    host.IsDirectoryAt (walkStart dir path) := by
  unfold walkStart
  split
  · exact host.isDirectoryAt_root
  · exact stands

theorem unnamed_isDirectoryAt (tree : host.IsTree) (stands : host.IsDirectoryAt dir) {name : Bytes}
    {next : Place} (leads : unnamed? dir name = some next) : host.IsDirectoryAt next := by
  unfold unnamed? at leads
  split at leads
  · cases leads
    exact stands
  split at leads
  · cases leads
    exact tree.above stands
  · cases leads

theorem walkWith_followed (tree : host.IsTree) {jump : Place → List Bytes → Except HostFailure Spot}
    (jumps : ∀ dir names, host.IsDirectoryAt dir → Followed (jump dir names)) {dir : Place}
    (stands : host.IsDirectoryAt dir) (names : List Bytes) :
    Followed (host.walkWith jump .target dir names) := by
  intro place target found
  induction names generalizing dir with
  | nil =>
    obtain ⟨mode, here⟩ := stands
    obtain ⟨node, there, same⟩ := walkWith_nil found
    rw [here] at there
    cases there
    cases same
  | cons name rest ih =>
    cases leads : unnamed? dir name with
    | some next => exact ih (unnamed_isDirectoryAt tree stands leads) (walkWith_unnamed leads found)
    | none =>
      have meets := walkWith_named leads found
      cases there : host.node? (dir ++ [name]) with
      | none =>
        rw [there] at meets
        cases meets
      | some node =>
        rw [there] at meets
        cases meets with
        | directory goes => exact ih ⟨_, there⟩ goes
        | link entry => cases entry
        | follows goes => exact jumps _ _ (walkStart_isDirectoryAt stands _) place target goes

theorem walk_followed (tree : host.IsTree) (links : Nat) {dir : Place}
    (stands : host.IsDirectoryAt dir) (names : List Bytes) :
    Followed (host.walk .target links dir names) := by
  induction links generalizing dir names with
  | zero => exact walkWith_followed tree (fun _ _ _ => followed_error _) stands names
  | succ links ih => exact walkWith_followed tree (fun _ names there => ih there names) stands names

theorem stat_followed (tree : host.IsTree) {path : Bytes} {place : Place} {node : Node}
    (found : host.stat path = .ok (place, node)) (target : Bytes) : node ≠ .link target := by
  rintro rfl
  have followed : Followed (host.locate .target path) := by
    unfold locate
    split
    · exact followed_error _
    split
    · exact followed_error _
    · exact walk_followed tree linkLimit (walkStart_isDirectoryAt tree.cwd path) (pathNames path)
  exact followed _ _ (stat_ok.1 found)

theorem IsTree.of_same {after : Host} (tree : host.IsTree) (cwd : after.cwd = host.cwd)
    (same : ∀ place, after.IsDirectoryAt place ↔ host.IsDirectoryAt place) : after.IsTree where
  above here := (same _).2 (tree.above ((same _).1 here))
  cwd := by
    rw [cwd]
    exact (same _).2 tree.cwd

theorem IsTree.alike {after : Host} (tree : host.IsTree) (alike : host.Alike after) : after.IsTree :=
  tree.of_same alike.cwd alike.directory

theorem isDirectoryAt_lost (lost : place.isLost = true) :
    host.IsDirectoryAt place ↔ place <+: host.cwd := by
  have root : place ≠ [] := by
    rintro rfl
    cases lost
  unfold IsDirectoryAt node?
  rw [if_neg root, if_pos lost, ← List.isPrefixOf_iff_prefix]
  split <;> simp_all

theorem IsTree.above_of (tree : host.IsTree) {above : Place} (before : above <+: place)
    (directory : host.IsDirectoryAt place) : host.IsDirectoryAt above := by
  obtain ⟨rest, rfl⟩ := before
  induction rest using List.reverseRecOn with
  | nil => rwa [List.append_nil] at directory
  | append_singleton rest name ih =>
    apply ih
    have next := tree.above directory
    rwa [← List.append_assoc, List.dropLast_concat] at next

theorem IsTree.put_directory (tree : host.IsTree) (above : host.IsDirectoryAt place.dropLast)
    (mode : Nat) : (host.put place (.directory mode)).IsTree := by
  have grows : ∀ seen, host.IsDirectoryAt seen →
      (host.put place (.directory mode)).IsDirectoryAt seen := by
    intro seen here
    rcases host.node?_put_or place (.directory mode) seen with same | ⟨_, put⟩
    · rwa [IsDirectoryAt, same]
    · exact ⟨mode, put⟩
  refine ⟨?_, grows _ tree.cwd⟩
  rintro seen ⟨found, here⟩
  rcases host.node?_put_or place (.directory mode) seen with same | ⟨rfl, _⟩
  · exact grows _ (tree.above ⟨found, same ▸ here⟩)
  · exact grows _ above

/-- Removed directories are there as far as they lead to the one that the process works in. -/
theorem isTree_of_kept (cwd : ∀ seen, seen <+: host.cwd → host.IsDirectoryAt seen)
    (above : ∀ seen, seen.isLost = false → host.IsDirectoryAt seen →
      host.IsDirectoryAt seen.dropLast) : host.IsTree where
  cwd := cwd _ List.prefix_rfl
  above := by
    intro seen here
    cases lost : seen.isLost with
    | true => exact cwd _ ((List.dropLast_prefix seen).trans ((isDirectoryAt_lost lost).1 here))
    | false => exact above seen lost here

theorem not_lost_above {above : Place} (before : above <+: place) (kept : place.isLost = false) :
    above.isLost = false := by
  by_contra lost
  rw [Place.isLost_of_above before (Bool.not_eq_false _ ▸ lost)] at kept
  cases kept

theorem isDirectoryAt_cwd (kept : place.isLost = false) (cwd : Place) :
    { host with cwd := cwd }.IsDirectoryAt place ↔ host.IsDirectoryAt place := by
  simp [IsDirectoryAt, node?, kept]

theorem IsTree.changeDirectory (tree : host.IsTree) (directory : host.IsDirectoryAt place) :
    { host with cwd := place }.IsTree := by
  refine isTree_of_kept ?_ ?_
  · intro seen before
    cases lost : Place.isLost seen with
    | true => exact (isDirectoryAt_lost lost).2 before
    | false => exact (isDirectoryAt_cwd lost place).2 (tree.above_of before directory)
  · intro seen kept here
    rw [isDirectoryAt_cwd kept] at here
    rw [isDirectoryAt_cwd (not_lost_above (List.dropLast_prefix seen) kept)]
    exact tree.above here

theorem node?_listed {node : Node} (stands : host.node? place = some node) :
    (place, node) ∈ host.nodes ∨
      node = .directory 0o755 ∧ (place = [] ∨ place.isLost = true) := by
  unfold node? at stands
  split at stands
  case isTrue root =>
    cases stands
    exact .inr ⟨rfl, .inl root⟩
  split at stands
  case isTrue lost =>
    split at stands
    · cases stands
      exact .inr ⟨rfl, .inr lost⟩
    · cases stands
  case isFalse =>
    obtain ⟨⟨named, node⟩, listed, rfl⟩ := Option.map_eq_some_iff.1 stands
    have same : named = place := by simpa using List.find?_some listed
    rw [← same]
    exact .inl (List.mem_of_find?_eq_some listed)

theorem listed_of_isDirectoryAt (kept : place.isLost = false) (root : place ≠ [])
    (here : host.IsDirectoryAt place) : ∃ mode, (place, .directory mode) ∈ host.nodes := by
  obtain ⟨mode, found⟩ := here
  rcases node?_listed found with listed | ⟨_, unlisted⟩
  · exact ⟨mode, listed⟩
  · simp [root, kept] at unlisted

/-- A host is a tree if all that it lists stands in directories. -/
theorem isTree_of_listed (cwd : host.IsDirectoryAt host.cwd) (kept : host.cwd.isLost = false)
    (listed : ∀ entry ∈ host.nodes, host.IsDirectoryAt entry.1.dropLast) : host.IsTree where
  cwd := cwd
  above := by
    intro seen here
    cases lost : seen.isLost with
    | true =>
      have gone := Place.isLost_of_above ((isDirectoryAt_lost lost).1 here) lost
      rw [kept] at gone
      cases gone
    | false =>
      by_cases root : seen = []
      · rw [root]
        exact host.isDirectoryAt_root
      · obtain ⟨mode, member⟩ := listed_of_isDirectoryAt lost root here
        exact listed _ member

theorem dropLast_ne_of_empty (empty : host.names dir = []) (kept : place.isLost = false)
    (root : place ≠ []) (here : host.IsDirectoryAt place) : place.dropLast ≠ dir := by
  rintro rfl
  obtain ⟨mode, listed⟩ := listed_of_isDirectoryAt kept root here
  have member : place.getLast root ∈ host.names place.dropLast := by
    refine List.mem_filterMap.2 ⟨_, listed, ?_⟩
    simp [List.getLast?_eq_some_getLast root]
  rw [empty] at member
  cases member

theorem prefix_of_lose {kept : Nat} {seen cwd : Place} (short : kept < cwd.length)
    (before : seen <+: cwd.lose kept) (clear : seen.isLost = false) :
    seen.length ≤ kept ∧ seen <+: cwd := by
  obtain ⟨name, rest, dropped⟩ := List.exists_cons_of_ne_nil (List.drop_eq_nil_iff.not.2 (by omega) :
    cwd.drop kept ≠ [])
  have shape : cwd.lose kept = cwd.take kept ++ ([slash :: name] ++ rest.map (slash :: ·)) := by
    simp [Place.lose, dropped]
  rw [shape] at before
  have length : (cwd.take kept).length = kept := List.length_take_of_le (Nat.le_of_lt short)
  have few : seen.length ≤ kept := by
    by_contra many
    have marked : cwd.take kept ++ [slash :: name] <+: seen := by
      refine List.prefix_of_prefix_length_le ?_ before (by simp; omega)
      rw [← List.append_assoc]
      exact List.prefix_append _ _
    have lost := Place.isLost_of_above marked (by simp [Place.isLost])
    rw [clear] at lost
    cases lost
  have above : seen <+: cwd.take kept :=
    List.prefix_of_prefix_length_le before (List.prefix_append _ _) (by omega)
  exact ⟨few, above.trans (List.take_prefix kept cwd)⟩

theorem isDirectoryAt_eraseDirectory (kept : place.isLost = false) (root : place ≠ [])
    (gone : Place) : (host.eraseDirectory gone).IsDirectoryAt place ↔
      place ≠ gone ∧ host.IsDirectoryAt place := by
  unfold eraseDirectory
  rw [isDirectoryAt_cwd kept, IsDirectoryAt, node?_erase, if_neg (by simp [root, kept])]
  by_cases same : place = gone
  · simp [same]
  · simp [same, IsDirectoryAt]

theorem IsTree.eraseDirectory (tree : host.IsTree) (empty : host.names dir = []) (root : dir ≠ []) :
    (host.eraseDirectory dir).IsTree := by
  refine isTree_of_kept ?_ ?_
  · intro seen before
    cases lost : Place.isLost seen with
    | true => exact (isDirectoryAt_lost lost).2 before
    | false =>
      by_cases top : seen = []
      · rw [top]
        exact isDirectoryAt_root _
      apply (isDirectoryAt_eraseDirectory lost top dir).2
      unfold Host.eraseDirectory at before
      simp only at before
      split at before
      case isTrue inside =>
        have long := (List.isPrefixOf_iff_prefix.1 inside).length_le
        have some := List.length_pos_iff.2 root
        obtain ⟨few, above⟩ := prefix_of_lose (by omega) before lost
        refine ⟨?_, tree.above_of above tree.cwd⟩
        rintro rfl
        omega
      case isFalse outside =>
        refine ⟨?_, tree.above_of before tree.cwd⟩
        rintro rfl
        exact outside (List.isPrefixOf_iff_prefix.2 before)
  · intro seen kept here
    by_cases top : seen.dropLast = []
    · rw [top]
      exact isDirectoryAt_root _
    have named : seen ≠ [] := by
      rintro rfl
      exact top rfl
    obtain ⟨_, before⟩ := (isDirectoryAt_eraseDirectory kept named dir).1 here
    have above := not_lost_above (List.dropLast_prefix seen) kept
    exact (isDirectoryAt_eraseDirectory above top dir).2
      ⟨dropLast_ne_of_empty empty kept named before, tree.above before⟩

end Host

end Loadable
