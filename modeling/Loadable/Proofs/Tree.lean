import Loadable.Proofs.Ancestors
import Loadable.Proofs.LastInsert
import Loadable.Proofs.Reachable
/-!
The tree that a memory store keeps: what holds a source or a hook is no directory, and the
directories are what `parents` lists above it. Where no name on the way ends in a colon these are
all the ancestors.
-/
namespace Loadable

namespace Tables

/-- The tables of a tree: every key that holds something is canonical and no directory, and the
directories are those that its insert recorded. -/
structure IsTree (t : Tables) : Prop where
  canonical : ∀ {key}, t.isFile key = true → key.IsCanonical
  directories : ∀ {key}, key ∈ t.directories ↔ ∃ file, t.isFile file = true ∧ key ∈ Key.parents file
  apart : ∀ {key}, t.isFile key = true → t.isDirectory key = false

variable {t after : Tables} {key other : Key} {i : Insertion}

theorem Put.isFile (put : t.Put key i after) :
    after.isFile other = true ↔ other = key ∨ t.isFile other = true := by
  obtain ⟨held, left⟩ := put.leaves
  rw [isFile_iff, isFile_iff, put.held other]
  by_cases same : other = key
  · simp [same, left]
  · simp [same]

theorem Put.directories (put : t.Put key i after) :
    other ∈ after.directories ↔ other ∈ t.directories ∨ other ∈ Key.parents key := by
  have recorded : other ∈ t.directoriesWith key ↔ other ∈ t.directories ∨ other ∈ Key.parents key := by
    simp only [directoriesWith, List.mem_append, List.mem_filter, Bool.not_eq_true',
      List.contains_eq_mem, decide_eq_false_iff_not]
    tauto
  cases put with
  | source path data => exact recorded
  | hook path h => exact recorded

theorem isDirectory_iff : t.isDirectory key = true ↔ key ∈ t.directories ∨ key.isRoot = true := by
  simp [isDirectory]

theorem Put.isDirectory (put : t.Put key i after) : after.isDirectory other = true ↔
    t.isDirectory other = true ∨ other ∈ Key.parents key := by
  rw [isDirectory_iff, isDirectory_iff, put.directories, or_right_comm]

theorem Put.undirected (put : t.Put key i after) (checked : t.checkInsert key = .ok ())
    (held : other = key ∨ t.isFile other = true ∧ t.isDirectory other = false) :
    after.isDirectory other = false := by
  obtain ⟨undirected, free⟩ := checkInsert_ok.1 checked
  rw [Bool.eq_false_iff, ne_eq, put.isDirectory, not_or]
  rcases held with rfl | ⟨file, before⟩
  · exact ⟨Bool.eq_false_iff.1 undirected,
      fun member => Nat.lt_irrefl _ (Key.length_of_mem_parents member)⟩
  · refine ⟨Bool.eq_false_iff.1 before, fun member => ?_⟩
    rw [free other member] at file
    cases file

theorem Put.apartFromDirectories (put : t.Put key i after) (checked : t.checkInsert key = .ok ())
    (apart : ∀ {key}, t.isFile key = true → t.isDirectory key = false)
    (file : after.isFile other = true) : after.isDirectory other = false :=
  put.undirected checked ((put.isFile.1 file).imp_right fun held => ⟨held, apart held⟩)

theorem Put.isTree (put : t.Put key i after) (checked : t.checkInsert key = .ok ())
    (canonical : key.IsCanonical) (tree : t.IsTree) : after.IsTree where
  canonical := by
    intro other file
    rcases put.isFile.1 file with rfl | file
    · exact canonical
    · exact tree.canonical file
  directories := by
    intro other
    rw [put.directories, tree.directories]
    constructor
    · rintro (⟨file, held, above⟩ | above)
      · exact ⟨file, put.isFile.2 (.inr held), above⟩
      · exact ⟨key, put.isFile.2 (.inl rfl), above⟩
    · rintro ⟨file, held, above⟩
      rcases put.isFile.1 held with rfl | held
      · exact .inr above
      · exact .inl ⟨file, held, above⟩
  apart := put.apartFromDirectories checked tree.apart

theorem insert_isTree (canonical : key.IsCanonical) (callable : i.Callable) (tree : t.IsTree) :
    (t.insert key i).2.IsTree := by
  cases ended : (t.insert key i).1 with
  | ok =>
    obtain ⟨checked, put⟩ := insert_ok ended
    exact put.isTree checked canonical tree
  | error raised => rwa [insert_refused callable ended]

/-- In a tree the directories are the keys that reach down to a source or a hook. -/
theorem IsTree.isDirectory_iff_reaches (tree : t.IsTree) (canonical : key.IsCanonical) :
    t.isDirectory key = true ↔ key = [slash] ∨ ∃ file, t.isFile file = true ∧ key.Reaches file := by
  have root : key.isRoot = true ↔ key = [slash] := by
    constructor
    · intro root
      obtain ⟨place, names, rfl⟩ := canonical
      have pieces := fun name member => (names name member).isPiece
      rw [Place.path_ends pieces (Key.getLast?_of_isRoot root)]
      rfl
    · rintro rfl
      rfl
  have recorded : key ∈ t.directories ↔ ∃ file, t.isFile file = true ∧ key.Reaches file := by
    rw [tree.directories]
    refine exists_congr fun file => and_congr_right fun held => ?_
    exact Key.mem_parents_iff (tree.canonical held) canonical
  rw [isDirectory_iff, root, recorded, or_comm]

theorem IsTree.not_reaches (tree : t.IsTree) {upper lower : Key} (file : t.isFile upper = true)
    (below : t.isFile lower = true) : ¬upper.Reaches lower := by
  intro reaches
  have directory := (tree.isDirectory_iff_reaches (tree.canonical file)).2 (.inr ⟨lower, below, reaches⟩)
  rw [tree.apart file] at directory
  cases directory

end Tables

/-- Against an absolute directory without `..` the memory store resolves paths to canonical keys. -/
theorem Store.canonical_of_ownKey {cwd : Text} {path : GivenPath} {key : Key}
    (absolute : Flavor.posix.isAbsolute cwd = true) (down : .up ∉ Flavor.posix.components cwd)
    (resolved : ownKey (.memory .posix cwd) path = .ok key) : key.IsCanonical := by
  obtain ⟨text, _, resolved⟩ := ownKey_ok.1 resolved
  exact Flavor.canonical_of_resolve absolute down resolved

theorem Insertion.act_isTree {cwd : Text} (absolute : Flavor.posix.isAbsolute cwd = true)
    (down : .up ∉ Flavor.posix.components cwd) {i : Insertion} (callable : i.Callable) :
    Act.Keeps Tables.IsTree (i.act (.memory .posix cwd)) :=
  act_keeps fun resolved tree =>
    Tables.insert_isTree (Store.canonical_of_ownKey absolute down resolved) callable tree

namespace Session

theorem Reachable.isTree {setup : Setup} {cwd : Text} (store : setup.store = .memory .posix cwd)
    (absolute : Flavor.posix.isAbsolute cwd = true) (down : .up ∉ Flavor.posix.components cwd)
    (callable : setup.Callable) {w : World} (reached : Reachable setup w) : w.tables.IsTree := by
  refine reached.keeps callable (fun t features tree => ⟨tree.1, tree.2, tree.3⟩) ?_ ?_
  · intro part s found i registers
    rw [store] at found
    rw [Store.part_memory found]
    exact i.act_isTree absolute down registers
  · exact ⟨nofun, by simp [Tables.isFile, KeyMap.contains, KeyMap.get?], nofun⟩

/-- In every world that a session over a memory store comes through, a key is a directory exactly if
it is the root or reaches down to a source or a hook, and no source or hook reaches down to another
one. As long as no ancestor of theirs ends in a colon, that goes for all ancestors. -/
theorem directory_iff_reaches {setup : Setup} {cwd : Text} (store : setup.store = .memory .posix cwd)
    (absolute : Flavor.posix.isAbsolute cwd = true) (down : .up ∉ Flavor.posix.components cwd)
    (callable : setup.Callable) {w : World} (reached : Reachable setup w) :
    (∀ key : Key, key.IsCanonical → ((setup.store.keyIsDirectory key w).1 = .ok true ↔
      key = [slash] ∨ ∃ file, w.tables.isFile file = true ∧ key.Reaches file)) ∧
    (∀ upper lower : Key, w.tables.isFile upper = true → w.tables.isFile lower = true →
      ¬upper.Reaches lower) ∧
    (∀ path key, setup.store.ownKey path = .ok key → key.IsCanonical ∧
      (setup.store.isDirectory path w).1 = (setup.store.keyIsDirectory key w).1) ∧
    ((∀ file above : Key, w.tables.isFile file = true → above.IsAbove file →
        above.getLast? ≠ some colon) →
      (∀ key : Key, key.IsCanonical → ((setup.store.keyIsDirectory key w).1 = .ok true ↔
        key = [slash] ∨ ∃ file, w.tables.isFile file = true ∧ key.IsAbove file)) ∧
      ∀ upper lower : Key, w.tables.isFile upper = true → w.tables.isFile lower = true →
        ¬upper.IsAbove lower) := by
  have tree := reached.isTree store absolute down callable
  have directories : ∀ key : Key, key.IsCanonical →
      ((setup.store.keyIsDirectory key w).1 = .ok true ↔
        key = [slash] ∨ ∃ file, w.tables.isFile file = true ∧ key.Reaches file) := by
    intro key canonical
    rw [← tree.isDirectory_iff_reaches canonical, store]
    simp [Store.keyIsDirectory, InMemory.isDirectory, Act.bind_apply, Act.world]
  refine ⟨directories, fun upper lower => tree.not_reaches, ?_, ?_⟩
  · intro path key resolved
    rw [store] at resolved ⊢
    refine ⟨Store.canonical_of_ownKey absolute down resolved, ?_⟩
    rw [Store.isDirectory_memory resolved]
    rfl
  · intro clear
    have same : ∀ {key file : Key}, w.tables.isFile file = true →
        (key.Reaches file ↔ key.IsAbove file) := fun held =>
      ⟨And.left, fun above => ⟨above, fun between _ lower => clear _ between held lower⟩⟩
    refine ⟨fun key canonical => ?_, fun upper lower file below above => ?_⟩
    · rw [directories key canonical]
      exact or_congr_right (exists_congr fun file => and_congr_right same)
    · exact tree.not_reaches file below ((same below).2 above)

/-- One source on a fresh store: the directory above it is there because the source is. -/
theorem directory_above_source :
    let setup : Setup := ⟨.memory .posix Flavor.posix.loadRoot, [], []⟩
    let w := (run setup [⟨.whole, .write (.text ("/x/a.rb" : Text)) (.bytes [])⟩] (World.fresh {})).2
    (setup.store.keyIsDirectory (Bytes.ofString "/x") w).1 = .ok true ∧
      ∃ file, w.tables.isFile file = true ∧ Key.Reaches (Bytes.ofString "/x") file := by
  intro setup w
  have reached : Reachable setup w := by
    refine run_reachable (.fresh {}) fun st member => ?_
    rw [List.mem_singleton.1 member]
    trivial
  have canonical : Key.IsCanonical (Bytes.ofString "/x") :=
    ⟨[Bytes.ofString "x"], by decide, by decide⟩
  have directory : (setup.store.keyIsDirectory (Bytes.ofString "/x") w).1 = .ok true := by
    decide +kernel
  obtain ⟨directories, _⟩ := directory_iff_reaches rfl (by decide +kernel)
    (by decide +kernel) (fun script none => absurd none List.not_mem_nil) reached
  exact ⟨directory, ((directories _ canonical).1 directory).resolve_left (by decide)⟩

/-- Below a name that ends in a colon a source can stand while another one stands at that name. -/
theorem source_below_source :
    let setup : Setup := ⟨.memory .posix Flavor.posix.loadRoot, [], []⟩
    let w := (run setup [
      ⟨.whole, .write (.text ("/a:/b.rb" : Text)) (.bytes [])⟩,
      ⟨.whole, .write (.text ("/a:" : Text)) (.bytes [])⟩] (World.fresh {})).2
    ¬((∀ key : Key, key.IsCanonical → ((setup.store.keyIsDirectory key w).1 = .ok true ↔
        key = [slash] ∨ ∃ file, w.tables.isFile file = true ∧ key.IsAbove file)) ∨
      ∀ upper lower : Key, w.tables.isFile upper = true → w.tables.isFile lower = true →
        ¬upper.IsAbove lower) := by
  intro setup w
  have canonical : Key.IsCanonical (Bytes.ofString "/a:") :=
    ⟨[Bytes.ofString "a:"], by decide, by decide⟩
  have above : Key.IsAbove (Bytes.ofString "/a:") (Bytes.ofString "/a:/b.rb") :=
    ⟨[Bytes.ofString "a:"], [Bytes.ofString "b.rb"], by decide, by decide, by decide, by decide⟩
  have upper : w.tables.isFile (Bytes.ofString "/a:") = true := by decide +kernel
  have lower : w.tables.isFile (Bytes.ofString "/a:/b.rb") = true := by decide +kernel
  rintro (directories | apart)
  · have directory := (directories _ canonical).2 (.inr ⟨_, lower, above⟩)
    revert directory
    decide +kernel
  · exact apart _ _ upper lower above

end Session

end Loadable
