import Loadable.Proofs.Finality
import Loadable.Proofs.Tree
/-!
What a memory store keeps at a key is one thing at most: a source, a hook or a directory. Every
insertion leaves it so, whatever it is one of and however it ends, and with it every session. So the
entry at a path says the same as asking whether the path exists and whether it is a directory.
-/
namespace Loadable

namespace Tables

/-- No key is two of a source, a hook and a directory, and the roots are directories from the start. -/
structure KeepsOneEach (t : Tables) : Prop where
  apart : t.Apart
  undirected : ∀ {key}, t.isFile key = true → t.isDirectory key = false

variable {t : Tables} {key : Key}

theorem insert_keepsOneEach (each : t.KeepsOneEach) (key : Key) (i : Insertion) :
    (t.insert key i).2.KeepsOneEach where
  apart := insert_apart each.apart key i
  undirected := by
    intro other file
    cases ended : (t.insert key i).1 with
    | ok =>
      obtain ⟨checked, put⟩ := insert_ok ended
      exact put.apartFromDirectories checked each.undirected file
    -- A source may have been lost, but nothing is put anywhere and no directory recorded.
    | error raised =>
      have lost := insert_mayLose ended
      rw [lost.isDirectory]
      exact each.undirected (lost.isFile file)

theorem isSome_entry? (t : Tables) (key : Key) : (t.entry? key).isSome = t.has key := by
  unfold entry? has isFile KeyMap.contains
  cases t.sources.get? key with
  | some data => rfl
  | none =>
    cases t.hooks.get? key with
    | some h => rfl
    | none => cases t.isDirectory key <;> rfl

theorem KeepsOneEach.free (each : t.KeepsOneEach) (directory : t.isDirectory key = true) :
    t.isFile key = false := by
  cases file : t.isFile key with
  | false => rfl
  | true =>
    rw [each.undirected file] at directory
    cases directory

theorem KeepsOneEach.entry?_directory (each : t.KeepsOneEach) :
    t.entry? key = some .directory ↔ t.isDirectory key = true := by
  constructor
  · intro shown
    unfold entry? at shown
    cases source : t.sources.get? key with
    | some data => simp [source] at shown
    | none =>
      cases hook : t.hooks.get? key with
      | some h => simp [source, hook] at shown
      | none => simpa [source, hook] using shown
  · intro directory
    obtain ⟨source, hook⟩ : t.sources.get? key = none ∧ t.hooks.get? key = none := by
      simpa [isFile, KeyMap.contains] using each.free directory
    simp [Tables.entry?, source, hook, directory]

end Tables

theorem Insertion.act_keepsOneEach (flavor : Flavor) (cwd : Text) (i : Insertion) :
    Act.Keeps Tables.KeepsOneEach (i.act (.memory flavor cwd)) :=
  act_keeps fun _ each => Tables.insert_keepsOneEach each _ i

theorem Later.keepsOneEach {setup : Setup} {flavor : Flavor} {cwd : Text}
    (store : setup.store = .memory flavor cwd) {w v : World} (later : Later setup w.fresh v) :
    v.tables.KeepsOneEach := by
  have unrequired : Store.Unrequired Tables.KeepsOneEach :=
    fun t features each => ⟨each.apart, each.undirected⟩
  have inserts : ∀ st, Session.StepKeeps Tables.KeepsOneEach setup st := by
    intro st part s found i _
    rw [store] at found
    rw [Store.part_memory found]
    exact i.act_keepsOneEach flavor cwd
  apply later.keeps
  · intro depth st
    have scripts := Session.runScript_keeps unrequired (fun _ _ _ _ st _ => inserts st.step) depth
    exact Session.step_keeps scripts unrequired (inserts st)
  · intro t feature each
    exact unrequired t _ each
  · exact ⟨fun _ => .inl rfl, nofun⟩

namespace Session

/-- In all the worlds that a session over a memory store comes to, the keys of sources, the keys of
hooks and the recorded directories are three sets without a common element, and no root is one of the
first two. So the entry at a path is there exactly if the path exists, and is a directory exactly if
the path is one. -/
theorem one_entry_each {setup : Setup} {flavor : Flavor} {cwd : Text}
    (store : setup.store = .memory flavor cwd) {w v : World} (later : Later setup w.fresh v) :
    (∀ key, ¬(v.tables.sources.contains key = true ∧ v.tables.hooks.contains key = true) ∧
      ¬(v.tables.sources.contains key = true ∧ key ∈ v.tables.directories) ∧
      ¬(v.tables.hooks.contains key = true ∧ key ∈ v.tables.directories)) ∧
    (∀ key : Key, key.isRoot = true →
      v.tables.sources.contains key = false ∧ v.tables.hooks.contains key = false) ∧
    (∀ path key, setup.store.ownKey path = .ok key → ∃ entry,
      (setup.store.entry? path v).1 = .ok entry ∧
      (setup.store.contains path v).1 = .ok entry.isSome ∧
      (setup.store.isDirectory path v).1 = .ok (decide (entry = some .directory))) ∧
    ∀ path raised, setup.store.ownKey path = .error raised →
      (setup.store.entry? path v).1 = .error raised ∧
      (setup.store.contains path v).1 = .error raised ∧
      (setup.store.isDirectory path v).1 = .error raised := by
  have each := later.keepsOneEach store
  have undirected : ∀ {key}, v.tables.isDirectory key = true →
      v.tables.sources.contains key = false ∧ v.tables.hooks.contains key = false := by
    intro key directory
    have free := each.free directory
    rwa [Tables.isFile, Bool.or_eq_false_iff] at free
  refine ⟨?_, ?_, ?_, ?_⟩
  · intro key
    refine ⟨?_, ?_, ?_⟩
    · rintro ⟨source, hook⟩
      have apart := each.apart key
      simp only [KeyMap.contains, Option.isSome_iff_ne_none] at source hook
      exact apart.elim source hook
    · rintro ⟨source, recorded⟩
      rw [(undirected (Tables.isDirectory_iff.2 (.inl recorded))).1] at source
      cases source
    · rintro ⟨hook, recorded⟩
      rw [(undirected (Tables.isDirectory_iff.2 (.inl recorded))).2] at hook
      cases hook
  · intro key root
    exact undirected (Tables.isDirectory_iff.2 (.inr root))
  · intro path key resolved
    rw [store] at resolved ⊢
    refine ⟨v.tables.entry? key, ?_, ?_, ?_⟩
    · rw [Store.entry_memory resolved]
    · rw [Store.contains_memory resolved, Tables.isSome_entry?]
    · rw [Store.isDirectory_memory resolved]
      apply congrArg Except.ok
      rw [Bool.eq_iff_iff, decide_eq_true_iff, each.entry?_directory]
  · intro path raised unresolved
    rw [store] at unresolved ⊢
    refine ⟨?_, ?_, ?_⟩
    · simp [Store.entry?, Store.resolve, Act.bind_apply, Act.of, Act.raise, unresolved]
    · simp [Store.contains, Store.resolve, Act.bind_apply, Act.of, Act.raise, unresolved]
    · simp [Store.isDirectory, Store.resolve, Act.bind_apply, Act.of, Act.raise, unresolved]

/-- A value that cannot be called takes a source away and leaves the directory above it, where no hook
can be registered then; below it one can. -/
theorem entries_after_refusals :
    let setup : Setup := ⟨.memory .nt ("C:\\w" : Text), [], []⟩
    let directory : GivenPath := .text ("a" : Text)
    let file : GivenPath := .text ("a\\b.rb" : Text)
    let steps : List Step := [
      ⟨.whole, .write file (.bytes (Bytes.ofString "x = 1"))⟩,
      ⟨.whole, .registerExtension file (.uncallable "int")⟩,
      ⟨.whole, .registerExtension directory (.hook ⟨"h", none, none⟩)⟩,
      ⟨.whole, .registerExtension (.text ("a/c.rb" : Text)) (.hook ⟨"h", none, none⟩)⟩]
    let v := (run setup steps (World.fresh {})).2
    Later setup (World.fresh {}) v ∧
      v.tables.hooks.contains (Bytes.ofString "C:/w/a/c.rb") = true ∧
      Bytes.ofString "C:/w/a/c.rb" ∉ v.tables.directories ∧
      (setup.store.contains file v).1 = .ok false ∧
      (setup.store.isDirectory directory v).1 = .ok true := by
  intro setup directory file steps v
  have later : Later setup (World.fresh {}) v := Later.now.run _
  have hook : v.tables.hooks.contains (Bytes.ofString "C:/w/a/c.rb") = true := by decide +kernel
  have fileKey : setup.store.ownKey file = .ok (Bytes.ofString "C:/w/a/b.rb") := by decide +kernel
  have directoryKey : setup.store.ownKey directory = .ok (Bytes.ofString "C:/w/a") := by decide +kernel
  have gone : (setup.store.entry? file v).1 = .ok none := by decide +kernel
  have stands : (setup.store.entry? directory v).1 = .ok (some .directory) := by decide +kernel
  obtain ⟨disjoint, _, entries, _⟩ := one_entry_each rfl later
  obtain ⟨_, shown, there, _⟩ := entries file _ fileKey
  obtain ⟨_, seen, _, directed⟩ := entries directory _ directoryKey
  cases shown.symm.trans gone
  cases seen.symm.trans stands
  exact ⟨later, hook, fun recorded => (disjoint _).2.2 ⟨hook, recorded⟩, there, directed⟩

end Session

end Loadable
