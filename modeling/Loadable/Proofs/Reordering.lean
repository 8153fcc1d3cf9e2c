import Loadable.Proofs.LastInsert
import Loadable.Proofs.Tree
import Mathlib.Data.List.Find
/-!
Insertions that keep out of each other's way: at different keys, none of them a directory above
another one. Each of them does what it would do alone, so their order does not matter.
-/
namespace Loadable

namespace Tables

variable {t after : Tables} {key other : Key} {i : Insertion}

theorem isFile_of_slots (same : after.slots key = t.slots key) :
    after.isFile key = t.isFile key := by
  obtain ⟨source, hook⟩ := Prod.mk.inj same
  simp only [isFile, KeyMap.contains, source, hook]

theorem AlikeAt.slots (alike : AlikeAt key t after) : after.slots key = t.slots key :=
  Prod.ext alike.source alike.hook

theorem insert_directories (i : Insertion) : other ∈ (t.insert key i).2.directories ↔
    other ∈ t.directories ∨ (t.insert key i).1 = .ok () ∧ other ∈ Key.parents key := by
  cases ended : (t.insert key i).1 with
  | ok =>
    rw [(insert_ok ended).2.directories]
    simp
  | error raised => simp [(insert_mayLose ended).directories]

/-- All that an insertion at the key looks at is the same. -/
structure Undisturbed (key : Key) (t after : Tables) : Prop extends AlikeAt key t after where
  above : ∀ parent ∈ Key.parents key, after.isFile parent = t.isFile parent

theorem insert_undisturbed (i : Insertion) (different : other ≠ key)
    (above : other ∉ Key.parents key) (below : key ∉ Key.parents other) :
    Undisturbed other t (t.insert key i).2 where
  source := congrArg Prod.fst (insert_slots_elsewhere i different)
  hook := congrArg Prod.snd (insert_slots_elsewhere i different)
  directory := by
    rw [Bool.eq_iff_iff, isDirectory_iff, isDirectory_iff, insert_directories]
    simp [above]
  above parent member := by
    refine isFile_of_slots (insert_slots_elsewhere i ?_)
    rintro rfl
    exact below member

theorem Undisturbed.checkInsert (same : Undisturbed key t after) :
    after.checkInsert key = t.checkInsert key := by
  rw [Tables.checkInsert, same.directory, List.find?_congr same.above]
  rfl

theorem Undisturbed.insert (same : Undisturbed key t after) (i : Insertion) :
    (after.insert key i).1 = (t.insert key i).1 ∧
      (after.insert key i).2.slots key = (t.insert key i).2.slots key := by
  have checked := same.checkInsert
  cases i with
  | write path data =>
    cases data with
    | unusable typeName => exact ⟨rfl, same.slots⟩
    | bytes data =>
      simp only [Tables.insert, GivenData.asBytes, write, checked]
      cases t.checkInsert key with
      | error fault => exact ⟨rfl, same.slots⟩
      | ok =>
        refine ⟨rfl, ?_⟩
        simp [Tables.slots, addDirectories, KeyMap.get?_insert, KeyMap.get?_erase]
  | register path given =>
    simp only [Tables.insert, register, checked]
    cases t.checkInsert key with
    | error fault => exact ⟨rfl, same.slots⟩
    | ok =>
      cases given with
      | uncallable typeName =>
        refine ⟨rfl, ?_⟩
        simp [HookTable.register, Tables.slots, KeyMap.get?_erase, same.hook]
      | hook h =>
        refine ⟨rfl, ?_⟩
        simp [HookTable.register, Tables.slots, addDirectories, KeyMap.get?_insert,
          KeyMap.get?_erase]

end Tables

namespace Insertion

/-- Two insertions at different keys, neither of which is a directory above the other one. -/
def Independent (s : Store) (i j : Insertion) : Prop :=
  ∀ key other, s.ownKey i.path = .ok key → s.ownKey j.path = .ok other →
    key ≠ other ∧ key ∉ Key.parents other ∧ other ∉ Key.parents key

theorem independent_iff {s : Store} {i j : Insertion} {key other : Key}
    (resolved : s.ownKey i.path = .ok key) (found : s.ownKey j.path = .ok other) :
    Independent s i j ↔ key ≠ other ∧ key ∉ Key.parents other ∧ other ∉ Key.parents key := by
  simp [Independent, resolved, found]

variable {flavor : Flavor} {cwd : Text} {i j : Insertion} {w : World} {key other : Key}

theorem Independent.symm {s : Store} (apart : Independent s i j) : Independent s j i := by
  intro key other resolved found
  obtain ⟨different, above, below⟩ := apart other key found resolved
  exact ⟨different.symm, below, above⟩

theorem act_eq_insert (resolved : Store.ownKey (.memory flavor cwd) i.path = .ok key) :
    (i.act (.memory flavor cwd) w).1 = (w.tables.insert key i).1 ∧
      (i.act (.memory flavor cwd) w).2.tables = (w.tables.insert key i).2 := by
  obtain ⟨log, ran, _⟩ := act_resolved (w := w) resolved
  rw [ran]
  exact ⟨rfl, rfl⟩

theorem act_slots_elsewhere (elsewhere : Store.ownKey (.memory flavor cwd) i.path ≠ .ok key) :
    (i.act (.memory flavor cwd) w).2.tables.slots key = w.tables.slots key := by
  cases resolved : Store.ownKey (.memory flavor cwd) i.path with
  | error raised => rw [act_unresolved resolved]
  | ok own =>
    rw [(act_eq_insert resolved).2]
    refine Tables.insert_slots_elsewhere i ?_
    rintro rfl
    exact elsewhere resolved

theorem act_directories : key ∈ (i.act (.memory flavor cwd) w).2.tables.directories ↔
    key ∈ w.tables.directories ∨ (i.act (.memory flavor cwd) w).1 = .ok () ∧
      ∃ own, Store.ownKey (.memory flavor cwd) i.path = .ok own ∧ key ∈ Key.parents own := by
  cases resolved : Store.ownKey (.memory flavor cwd) i.path with
  | error raised => simp [act_unresolved resolved]
  | ok own =>
    obtain ⟨ended, left⟩ := act_eq_insert (w := w) resolved
    rw [left, ended, Tables.insert_directories]
    simp

/-- An insertion after an independent one ends as it would have without it, and leaves the same at
its key. -/
theorem Independent.act_alone (apart : Independent (.memory flavor cwd) i j) :
    (j.act (.memory flavor cwd) (i.act (.memory flavor cwd) w).2).1 =
        (j.act (.memory flavor cwd) w).1 ∧
      ∀ key, Store.ownKey (.memory flavor cwd) j.path = .ok key →
        (j.act (.memory flavor cwd) (i.act (.memory flavor cwd) w).2).2.tables.slots key =
          (j.act (.memory flavor cwd) w).2.tables.slots key := by
  cases found : Store.ownKey (.memory flavor cwd) j.path with
  | error raised =>
    rw [act_unresolved found, act_unresolved found]
    exact ⟨rfl, nofun⟩
  | ok other =>
    have undisturbed : Tables.Undisturbed other w.tables (i.act (.memory flavor cwd) w).2.tables := by
      cases resolved : Store.ownKey (.memory flavor cwd) i.path with
      | error raised =>
        rw [act_unresolved resolved]
        exact ⟨⟨rfl, rfl, rfl⟩, fun _ _ => rfl⟩
      | ok key =>
        obtain ⟨different, above, below⟩ := apart key other resolved found
        rw [(act_eq_insert resolved).2]
        exact Tables.insert_undisturbed i different.symm below above
    obtain ⟨ended, left⟩ := undisturbed.insert j
    rw [(act_eq_insert found).1, (act_eq_insert found).1, (act_eq_insert found).2,
      (act_eq_insert found).2]
    refine ⟨ended, ?_⟩
    rintro key ⟨⟩
    exact left

end Insertion

namespace Store

def outcomes (s : Store) : List Insertion → World → List (Except Raised Unit)
  | [], _ => []
  | i :: rest, w => (i.act s w).1 :: s.outcomes rest (i.act s w).2

variable {flavor : Flavor} {cwd : Text} {inserts order : List Insertion} {w : World} {key : Key}

theorem insertAll_slots_elsewhere
    (elsewhere : ∀ i ∈ inserts, ownKey (.memory flavor cwd) i.path ≠ .ok key) :
    (insertAll (.memory flavor cwd) inserts w).tables.slots key = w.tables.slots key := by
  induction inserts generalizing w with
  | nil => rfl
  | cons i rest ih =>
    have others : ∀ j ∈ rest, ownKey (.memory flavor cwd) j.path ≠ .ok key := fun j member =>
      elsewhere j (List.mem_cons_of_mem i member)
    rw [insertAll, ih others, Insertion.act_slots_elsewhere (elsewhere i List.mem_cons_self)]

section Alone

variable (independent : inserts.Pairwise (Insertion.Independent (.memory flavor cwd)))

include independent

theorem outcomes_alone : outcomes (.memory flavor cwd) inserts w =
    inserts.map fun i => (i.act (.memory flavor cwd) w).1 := by
  induction inserts generalizing w with
  | nil => rfl
  | cons i rest ih =>
    obtain ⟨first, others⟩ := List.pairwise_cons.1 independent
    rw [outcomes, List.map_cons, ih others]
    congr 1
    exact List.map_congr_left fun j member => (first j member).act_alone.1

theorem insertAll_slots {i : Insertion} (member : i ∈ inserts)
    (resolved : ownKey (.memory flavor cwd) i.path = .ok key) :
    (insertAll (.memory flavor cwd) inserts w).tables.slots key =
      (i.act (.memory flavor cwd) w).2.tables.slots key := by
  induction inserts generalizing w with
  | nil => cases member
  | cons j rest ih =>
    obtain ⟨first, others⟩ := List.pairwise_cons.1 independent
    rw [insertAll]
    rcases List.mem_cons.1 member with rfl | later
    · refine insertAll_slots_elsewhere fun j member found => ?_
      exact (first j member key key resolved found).1 rfl
    · rw [ih others later, (first i later).act_alone.2 key resolved]

theorem insertAll_directories : key ∈ (insertAll (.memory flavor cwd) inserts w).tables.directories ↔
    key ∈ w.tables.directories ∨
      ∃ i ∈ inserts, key ∈ (i.act (.memory flavor cwd) w).2.tables.directories := by
  induction inserts generalizing w with
  | nil => simp [insertAll]
  | cons i rest ih =>
    obtain ⟨first, others⟩ := List.pairwise_cons.1 independent
    -- What the first insertion records is there whatever the others do.
    have alone : ∀ j ∈ rest,
        (key ∈ (j.act (.memory flavor cwd) (i.act (.memory flavor cwd) w).2).2.tables.directories ↔
          key ∈ (i.act (.memory flavor cwd) w).2.tables.directories ∨
            key ∈ (j.act (.memory flavor cwd) w).2.tables.directories) := by
      intro j member
      rw [Insertion.act_directories, (first j member).act_alone.1, Insertion.act_directories,
        Insertion.act_directories, or_assoc, or_or_distrib_left]
    rw [insertAll, ih others, List.exists_mem_cons_iff]
    constructor
    · rintro (recorded | ⟨j, member, recorded⟩)
      · exact .inr (.inl recorded)
      · rcases (alone j member).1 recorded with here | there
        · exact .inr (.inl here)
        · exact .inr (.inr ⟨j, member, there⟩)
    · rintro (before | recorded | ⟨j, member, recorded⟩)
      · exact .inl (Insertion.act_directories.2 (.inl before))
      · exact .inl recorded
      · exact .inr ⟨j, member, (alone j member).2 (.inr recorded)⟩

end Alone

/-- Independent insertions come to the same in every order: each of them ends as it would alone, and
the same sources, hooks and directories are left. -/
theorem independent_inserts_commute (flavor : Flavor) (cwd : Text) {inserts : List Insertion}
    (independent : inserts.Pairwise (Insertion.Independent (.memory flavor cwd))) (w : World) :
    let s : Store := .memory flavor cwd
    ∀ order : List Insertion, order.Perm inserts →
      let here := (s.insertAll inserts w).tables
      let there := (s.insertAll order w).tables
      s.outcomes order w = order.map (fun i => (i.act s w).1) ∧
      (order.zip (s.outcomes order w)).Perm (inserts.zip (s.outcomes inserts w)) ∧
      (∀ key, there.sources.get? key = here.sources.get? key) ∧
      (∀ key, there.hooks.get? key = here.hooks.get? key) ∧
      ∀ key, key ∈ there.directories ↔ key ∈ here.directories := by
  intro s order same here there
  have reordered : order.Pairwise (Insertion.Independent s) :=
    (same.pairwise_iff fun apart => apart.symm).2 independent
  have slots : ∀ key, there.slots key = here.slots key := by
    intro key
    by_cases met : ∃ i ∈ inserts, s.ownKey i.path = .ok key
    · obtain ⟨i, member, resolved⟩ := met
      rw [insertAll_slots independent member resolved,
        insertAll_slots reordered (same.mem_iff.2 member) resolved]
    · have elsewhere : ∀ i ∈ inserts, s.ownKey i.path ≠ .ok key := fun i member resolved =>
        met ⟨i, member, resolved⟩
      rw [insertAll_slots_elsewhere elsewhere,
        insertAll_slots_elsewhere fun i member => elsewhere i (same.mem_iff.1 member)]
  refine ⟨outcomes_alone reordered, ?_, ?_, ?_, ?_⟩
  · rw [outcomes_alone reordered, outcomes_alone independent, ← List.map_prod_left_eq_zip,
      ← List.map_prod_left_eq_zip]
    exact same.map _
  · exact fun key => congrArg Prod.fst (slots key)
  · exact fun key => congrArg Prod.snd (slots key)
  · intro key
    rw [insertAll_directories independent, insertAll_directories reordered]
    simp only [same.mem_iff]

/-- A hook in place of a source, something that cannot be called at the key of another source, and a
source below a source: in turned order the second and the third one still fail. -/
theorem independent_inserts_turned :
    let s : Store := .memory .posix Flavor.posix.loadRoot
    let w := s.insertAll [
      .write (.text ("/x/a.rb" : Text)) (.bytes [1]),
      .write (.text ("/y" : Text)) (.bytes [2]),
      .write (.text ("/z" : Text)) (.bytes [3])] {}
    let hook : Insertion := .register (.text ("/x/a.rb" : Text)) (.hook ⟨"h", none, none⟩)
    let uncallable : Insertion := .register (.text ("/y" : Text)) (.uncallable "int")
    let blocked : Insertion := .write (.text ("/z/b.rb" : Text)) (.bytes [4])
    [hook, uncallable, blocked].Pairwise (Insertion.Independent s) ∧
    [blocked, uncallable, hook].Perm [hook, uncallable, blocked] ∧
    s.outcomes [blocked, uncallable, hook] w = [
      .error (.fault (.parentNotDirectory (Bytes.ofString "/z") (Bytes.ofString "/z/b.rb"))),
      .error (.mishap (.notCallable "int")), .ok ()] := by
  intro s w hook uncallable blocked
  have hookKey : s.ownKey hook.path = .ok (Bytes.ofString "/x/a.rb") := by decide +kernel
  have uncallableKey : s.ownKey uncallable.path = .ok (Bytes.ofString "/y") := by decide +kernel
  have blockedKey : s.ownKey blocked.path = .ok (Bytes.ofString "/z/b.rb") := by decide +kernel
  have first := (Insertion.independent_iff hookKey uncallableKey).2 (by decide +kernel)
  have second := (Insertion.independent_iff hookKey blockedKey).2 (by decide +kernel)
  have third := (Insertion.independent_iff uncallableKey blockedKey).2 (by decide +kernel)
  have independent : [hook, uncallable, blocked].Pairwise (Insertion.Independent s) := by
    simp [first, second, third]
  have turned : [blocked, uncallable, hook].Perm [hook, uncallable, blocked] := by
    decide +kernel
  obtain ⟨alone, _⟩ :=
    independent_inserts_commute .posix Flavor.posix.loadRoot independent w _ turned
  refine ⟨independent, turned, alone.trans ?_⟩
  decide +kernel

end Store

end Loadable
