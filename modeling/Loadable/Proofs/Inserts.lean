import Loadable.Store.Operations
import Mathlib.Control.Monad.Basic
/-!
What an insertion into a memory store does to the tables. If it succeeds, it puts a source or a hook
at its key and records the directories above; if it is refused, it leaves everything as it was,
except that a hook which cannot be called costs its key the source there.
-/
namespace Loadable

inductive Insertion where
  | write (path : GivenPath) (data : GivenData)
  | register (path : GivenPath) (given : GivenHook)
  deriving DecidableEq

inductive Held where
  | source (data : Bytes)
  | hook (h : Hook)
  deriving DecidableEq

def Held.call (key : Key) : Held → Call
  | source data => .source (Text.decode key) data
  | hook h => .hook key h

namespace Insertion

def path : Insertion → GivenPath
  | write path _ => path
  | register path _ => path

def Callable : Insertion → Prop
  | register _ (.uncallable _) => False
  | _ => True

def held? : Insertion → Option Held
  | write _ (.bytes data) => some (.source data)
  | register _ (.hook h) => some (.hook h)
  | _ => none

def act (s : Store) : Insertion → Act Unit
  | write path data => s.write path data
  | register path given => s.registerExtension path given

end Insertion

abbrev Store.memory (flavor : Flavor) (cwd : Text) : Store :=
  ⟨flavor, cwd, .memory⟩

namespace Tables

def held? (t : Tables) (key : Key) : Option Held :=
  match t.sources.get? key with
  | some data => some (.source data)
  | none => (t.hooks.get? key).map .hook

def Apart (t : Tables) : Prop :=
  ∀ key, t.sources.get? key = none ∨ t.hooks.get? key = none

def insert (t : Tables) (key : Key) : Insertion → Except Raised Unit × Tables
  | .write _ data =>
    match data.asBytes with
    | .error mishap => (.error (.mishap mishap), t)
    | .ok bytes =>
      match t.write key bytes with
      | .error fault => (.error (.fault fault), t)
      | .ok after => (.ok (), after)
  | .register _ given => t.register key given

theorem checkInsert_ok {t : Tables} {key : Key} :
    t.checkInsert key = .ok () ↔
      t.isDirectory key = false ∧ ∀ parent ∈ Key.parents key, t.isFile parent = false := by
  unfold checkInsert
  cases directory : t.isDirectory key with
  | true => simp
  | false =>
    cases blocked : (Key.parents key).find? t.isFile with
    | none =>
      have free := List.find?_eq_none.1 blocked
      simpa using free
    | some parent =>
      have file := List.find?_some blocked
      have member := List.mem_of_find?_eq_some blocked
      simp only [Bool.false_eq_true, if_false, true_and, reduceCtorEq, false_iff]
      intro free
      rw [free parent member] at file
      cases file

theorem isFile_iff {t : Tables} {key : Key} : t.isFile key = true ↔ t.held? key ≠ none := by
  unfold isFile held? KeyMap.contains
  cases t.sources.get? key with
  | some data => simp
  | none => cases t.hooks.get? key <;> simp

def directoriesWith (t : Tables) (key : Key) : List Key :=
  t.directories ++ (Key.parents key).filter (!t.directories.contains ·)

/-- What an insertion that succeeds does to the tables. -/
inductive Put (t : Tables) (key : Key) : Insertion → Tables → Prop where
  | source (path : GivenPath) (data : Bytes) :
      Put t key (.write path (.bytes data)) { t with
        hooks := t.hooks.erase key
        sources := t.sources.insert key data
        directories := t.directoriesWith key }
  | hook (path : GivenPath) (h : Hook) :
      Put t key (.register path (.hook h)) { t with
        sources := t.sources.erase key
        hooks := t.hooks.insert key h
        directories := t.directoriesWith key }

theorem insert_ok {t : Tables} {key : Key} {i : Insertion} (done : (t.insert key i).1 = .ok ()) :
    t.checkInsert key = .ok () ∧ t.Put key i (t.insert key i).2 := by
  cases i with
  | write path data =>
    cases data with
    | unusable typeName => cases done
    | bytes data =>
      simp only [insert, GivenData.asBytes, write] at done ⊢
      cases checked : t.checkInsert key with
      | error fault =>
        rw [checked] at done
        cases done
      | ok => exact ⟨rfl, .source path data⟩
  | register path given =>
    simp only [insert, register] at done ⊢
    cases checked : t.checkInsert key with
    | error fault =>
      rw [checked] at done
      cases done
    | ok =>
      rw [checked] at done
      cases given with
      | uncallable typeName => cases done
      | hook h => exact ⟨rfl, .hook path h⟩

/-- An insertion that is refused changes nothing, unless it is one of something that cannot be
called: that is found out when the source has been taken away. -/
theorem insert_error {t : Tables} {key : Key} {i : Insertion} {raised : Raised}
    (refused : (t.insert key i).1 = .error raised) :
    (t.insert key i).2 = t ∨
      ∃ path typeName, i = .register path (.uncallable typeName) ∧ t.checkInsert key = .ok () ∧
        (t.insert key i).2 = { t with sources := t.sources.erase key } := by
  cases i with
  | write path data =>
    left
    cases data with
    | unusable typeName => rfl
    | bytes data =>
      simp only [insert, GivenData.asBytes, write] at refused ⊢
      cases checked : t.checkInsert key with
      | error fault => rfl
      | ok =>
        rw [checked] at refused
        cases refused
  | register path given =>
    simp only [insert, register] at refused ⊢
    cases checked : t.checkInsert key with
    | error fault => exact .inl rfl
    | ok =>
      rw [checked] at refused
      cases given with
      | hook h => cases refused
      | uncallable typeName => exact .inr ⟨path, typeName, rfl, rfl, rfl⟩

theorem insert_refused {t : Tables} {key : Key} {i : Insertion} (callable : i.Callable)
    {raised : Raised} (refused : (t.insert key i).1 = .error raised) : (t.insert key i).2 = t := by
  rcases insert_error refused with unchanged | ⟨path, typeName, rfl, _⟩
  · exact unchanged
  · exact callable.elim

/-- All is as it was, but for the source at the key, which may be gone. -/
structure MayLose (key : Key) (t after : Tables) : Prop where
  hooks : after.hooks = t.hooks
  directories : after.directories = t.directories
  source : ∀ other, after.sources.get? other = t.sources.get? other ∨
    other = key ∧ after.sources.get? other = none

theorem insert_mayLose {t : Tables} {key : Key} {i : Insertion} {raised : Raised}
    (refused : (t.insert key i).1 = .error raised) : MayLose key t (t.insert key i).2 := by
  rcases insert_error refused with unchanged | ⟨path, typeName, _, _, erased⟩
  · rw [unchanged]
    exact ⟨rfl, rfl, fun _ => .inl rfl⟩
  · rw [erased]
    refine ⟨rfl, rfl, fun other => ?_⟩
    by_cases same : other = key
    · exact .inr ⟨same, by simp [KeyMap.get?_erase, same]⟩
    · exact .inl (by simp [KeyMap.get?_erase, same])

namespace MayLose

variable {t after : Tables} {key other : Key} (lost : MayLose key t after)

include lost

theorem isDirectory : after.isDirectory other = t.isDirectory other := by
  simp only [Tables.isDirectory, lost.directories]

theorem source_of (held : after.sources.contains other = true) : t.sources.contains other = true := by
  unfold KeyMap.contains at held ⊢
  rcases lost.source other with same | ⟨_, gone⟩
  · rwa [same] at held
  · simp [gone] at held

theorem isFile (file : after.isFile other = true) : t.isFile other = true := by
  rw [Tables.isFile, Bool.or_eq_true] at file ⊢
  rw [lost.hooks] at file
  exact file.imp_left lost.source_of

end MayLose

def slots (t : Tables) (key : Key) : Option Bytes × Option Hook :=
  (t.sources.get? key, t.hooks.get? key)

theorem Put.slots_elsewhere {t after : Tables} {key other : Key} {i : Insertion}
    (put : t.Put key i after) (different : other ≠ key) : after.slots other = t.slots other := by
  cases put with
  | source path data => simp [slots, KeyMap.get?_insert, KeyMap.get?_erase, different]
  | hook path h => simp [slots, KeyMap.get?_insert, KeyMap.get?_erase, different]

theorem insert_slots_elsewhere {t : Tables} {key other : Key} (i : Insertion)
    (different : other ≠ key) : (t.insert key i).2.slots other = t.slots other := by
  cases ended : (t.insert key i).1 with
  | ok => exact (insert_ok ended).2.slots_elsewhere different
  | error raised =>
    have lost := insert_mayLose ended
    have source := (lost.source other).resolve_right fun found => different found.1
    rw [slots, slots, source, lost.hooks]

structure AlikeAt (key : Key) (t after : Tables) : Prop where
  source : after.sources.get? key = t.sources.get? key
  hook : after.hooks.get? key = t.hooks.get? key
  directory : after.isDirectory key = t.isDirectory key

theorem Put.leaves {t after : Tables} {key : Key} {i : Insertion} (put : t.Put key i after) :
    ∃ held, i.held? = some held := by
  cases put with
  | source path data => exact ⟨_, rfl⟩
  | hook path h => exact ⟨_, rfl⟩

theorem Put.held {t after : Tables} {key : Key} {i : Insertion} (put : t.Put key i after)
    (other : Key) : after.held? other = if other = key then i.held? else t.held? other := by
  cases put with
  | source path data =>
    simp only [held?, KeyMap.get?_insert, KeyMap.get?_erase, Insertion.held?]
    by_cases same : other = key
    · simp [same]
    · simp [same]
  | hook path h =>
    simp only [held?, KeyMap.get?_insert, KeyMap.get?_erase, Insertion.held?]
    by_cases same : other = key
    · simp [same]
    · simp [same]

theorem Put.apart {t after : Tables} {key : Key} {i : Insertion} (put : t.Put key i after)
    (apart : t.Apart) : after.Apart := by
  intro other
  cases put with
  | source path data =>
    simp only [KeyMap.get?_insert, KeyMap.get?_erase]
    by_cases same : other = key
    · simp [same]
    · simpa [same] using apart other
  | hook path h =>
    simp only [KeyMap.get?_insert, KeyMap.get?_erase]
    by_cases same : other = key
    · simp [same]
    · simpa [same] using apart other

theorem insert_apart {t : Tables} (apart : t.Apart) (key : Key) (i : Insertion) :
    (t.insert key i).2.Apart := by
  cases ended : (t.insert key i).1 with
  | ok => exact (insert_ok ended).2.apart apart
  | error raised =>
    intro other
    have lost := insert_mayLose ended
    rcases lost.source other with same | ⟨_, gone⟩
    · rw [same, lost.hooks]
      exact apart other
    · exact .inl gone

theorem AlikeAt.held {key : Key} {t after : Tables} (alike : AlikeAt key t after) :
    after.held? key = t.held? key := by
  simp only [held?, alike.source, alike.hook]

theorem AlikeAt.read {key : Key} {t after : Tables} (alike : AlikeAt key t after) :
    after.read key = t.read key := by
  simp only [Tables.read, alike.source, alike.directory]

end Tables

section Memory

variable {flavor : Flavor} {cwd : Text} {i : Insertion} {w : World} {key : Key} {raised : Raised}

namespace Insertion

theorem act_unresolved
    (unresolved : Store.ownKey (.memory flavor cwd) i.path = .error raised) :
    i.act (.memory flavor cwd) w = (.error raised, w) := by
  cases i with
  | write path data =>
    change Store.ownKey _ path = _ at unresolved
    simp [act, Store.write, Store.resolve, Act.bind_apply, Act.of, Act.raise, unresolved]
  | register path given =>
    change Store.ownKey _ path = _ at unresolved
    simp [act, Store.registerExtension, Store.resolve, Act.bind_apply, Act.of, Act.raise,
      unresolved]

theorem write_resolved (path : GivenPath) (data : GivenData)
    (resolved : Store.ownKey (.memory flavor cwd) path = .ok key) :
    Store.write (.memory flavor cwd) path data w = (do
      let bytes ← Act.ofMishap data.asBytes
      Store.writeMemory (.memory flavor cwd) key bytes) w := by
  simp [Store.write, Store.resolve, Act.bind_apply, Act.of, resolved, Store.writeKey]

theorem register_resolved (path : GivenPath) (given : GivenHook)
    (resolved : Store.ownKey (.memory flavor cwd) path = .ok key) :
    Store.registerExtension (.memory flavor cwd) path given w =
      Store.registerMemory key given w := by
  simp [Store.registerExtension, Store.resolve, Act.bind_apply, Act.of, resolved,
    Store.registerKey]

theorem act_resolved (resolved : Store.ownKey (.memory flavor cwd) i.path = .ok key) :
    ∃ log,
      i.act (.memory flavor cwd) w = ((w.tables.insert key i).1,
        { w with tables := (w.tables.insert key i).2, log := log }) ∧
      ((w.tables.insert key i).1 = .ok () ∨ log = w.log) := by
  cases i with
  | write path data =>
    rw [act, write_resolved path data resolved, Act.bind_apply, Tables.insert]
    cases usable : data.asBytes with
    | error mishap => exact ⟨w.log, rfl, .inr rfl⟩
    | ok bytes =>
      cases written : w.tables.write key bytes with
      | error fault =>
        refine ⟨w.log, ?_, .inr rfl⟩
        simp [Act.bind_apply, Act.ofMishap, Store.writeMemory, Act.onTables, written]
      | ok after =>
        have effect : ∃ log, Store.writeMemory (.memory flavor cwd) key bytes w =
            (.ok (), { w with tables := after, log := log }) := by
          simp only [Store.writeMemory, Act.bind_apply, Act.onTables, written]
          exact ⟨_, rfl⟩
        obtain ⟨log, wrote⟩ := effect
        exact ⟨log, by simp [Act.ofMishap, wrote, written], .inl (by simp [written])⟩
  | register path given =>
    rw [act, register_resolved path given resolved, Store.registerMemory, Act.bind_apply, Tables.insert]
    cases registered : w.tables.register key given with
    | mk result after =>
      cases result with
      | error raised =>
        refine ⟨w.log, ?_, .inr rfl⟩
        simp [Act.bind_apply, Act.world, Act.onTables, registered]
      | ok =>
        simp only [Act.world, Act.bind_apply, Act.onTables, registered]
        exact ⟨_, rfl, .inl trivial⟩

/-- The insertion is one of something that cannot be called, at a key where a source stands that
could make way for a hook. -/
def Unseats (s : Store) (t : Tables) (key : Key) (i : Insertion) : Prop :=
  ∃ path typeName, i = register path (.uncallable typeName) ∧ s.ownKey path = .ok key ∧
    t.checkInsert key = .ok () ∧ t.sources.contains key = true

theorem Unseats.act_eq (unseats : i.Unseats (.memory flavor cwd) w.tables key) :
    (i.act (.memory flavor cwd) w).2 =
      { w with tables := { w.tables with sources := w.tables.sources.erase key } } := by
  obtain ⟨path, typeName, rfl, resolved, checked, _⟩ := unseats
  rw [act, register_resolved path _ resolved]
  simp [Store.registerMemory, Act.bind_apply, Act.world, Act.onTables, Tables.register, checked,
    HookTable.register]

theorem act_unchanged (refused : (i.act (.memory flavor cwd) w).1 = .error raised)
    (kept : ∀ key, ¬i.Unseats (.memory flavor cwd) w.tables key) :
    (i.act (.memory flavor cwd) w).2 = w := by
  cases resolved : Store.ownKey (.memory flavor cwd) i.path with
  | error why => rw [act_unresolved resolved]
  | ok own =>
    obtain ⟨log, ran, noted⟩ := act_resolved (w := w) resolved
    rw [ran] at refused ⊢
    rcases noted with done | quiet
    · rw [done] at refused
      cases refused
    · rw [quiet]
      rcases Tables.insert_error refused with unchanged | ⟨path, typeName, rfl, checked, erased⟩
      · rw [unchanged]
      -- Taking the source away where there is none does nothing.
      · have free : w.tables.sources.get? own = none := by
          have unheld := fun held => kept own ⟨path, typeName, rfl, resolved, checked, held⟩
          simpa [KeyMap.contains] using unheld
        rw [erased, KeyMap.erase_absent free]

/-- Only by taking a source away can a refused insertion change anything, and then that is all it
changes. -/
theorem refused_unchanged_iff (flavor : Flavor) (cwd : Text) {i : Insertion} {w : World}
    {raised : Raised} (refused : (i.act (.memory flavor cwd) w).1 = .error raised) :
    ((i.act (.memory flavor cwd) w).2.tables = w.tables ↔
      ∀ key, ¬i.Unseats (.memory flavor cwd) w.tables key) ∧
    ((∀ key, ¬i.Unseats (.memory flavor cwd) w.tables key) →
      (i.act (.memory flavor cwd) w).2 = w) ∧
    ∀ key, i.Unseats (.memory flavor cwd) w.tables key → (i.act (.memory flavor cwd) w).2 =
      { w with tables := { w.tables with sources := w.tables.sources.erase key } } := by
  refine ⟨⟨?_, ?_⟩, act_unchanged refused, fun key unseats => unseats.act_eq⟩
  · intro same key unseats
    rw [unseats.act_eq] at same
    obtain ⟨_, _, _, _, _, held⟩ := unseats
    rw [← same, KeyMap.contains, KeyMap.get?_erase] at held
    simp at held
  · intro kept
    rw [act_unchanged refused kept]

/-- A source, a hook and the directory of both stay when something that cannot be called is registered
below the source: it is refused because no directory is there. -/
theorem refused_unchanged_unusable :
    let s : Store := .memory .posix ("/" : Text)
    let hook : GivenHook := .hook { script := ("h" : Text) }
    let source := ((write (.text ("lib/a" : Text)) (.bytes (Bytes.ofString "x = 1"))).act s {}).2
    let w := ((register (.text ("lib/b" : Text)) hook).act s source).2
    let refused := (register (.text ("lib/a/c" : Text)) (.uncallable "int")).act s w
    w.tables.sources.contains (Bytes.ofString "/lib/a") = true ∧
      w.tables.hooks.contains (Bytes.ofString "/lib/b") = true ∧
      w.tables.isDirectory (Bytes.ofString "/lib") = true ∧
      refused.1 = .error (.fault (.parentNotDirectory (Bytes.ofString "/lib/a")
        (Bytes.ofString "/lib/a/c"))) ∧
      refused.2 = w := by
  intro s hook source w refused
  have failed : refused.1 = .error (.fault (.parentNotDirectory (Bytes.ofString "/lib/a")
      (Bytes.ofString "/lib/a/c"))) := by
    decide +kernel
  obtain ⟨_, unchanged, _⟩ := refused_unchanged_iff .posix ("/" : Text) failed
  refine ⟨by decide +kernel, by decide +kernel, by decide +kernel, failed, unchanged ?_⟩
  rintro key ⟨path, typeName, same, resolved, checked, _⟩
  cases same
  have own : s.ownKey (.text ("lib/a/c" : Text)) = .ok (Bytes.ofString "/lib/a/c") := by
    decide +kernel
  cases own.symm.trans resolved
  have barred : w.tables.checkInsert (Bytes.ofString "/lib/a/c") ≠ .ok () := by decide +kernel
  exact barred checked

/-- The source at a key is gone when something that cannot be called has been refused there. -/
theorem uncallable_unseats_source :
    let s : Store := .memory .posix Flavor.posix.loadRoot
    let path : GivenPath := .text ("a.rb" : Text)
    let written := ((write path (.bytes (Bytes.ofString "x = 1"))).act s {}).2
    let refused := (register path (.uncallable "int")).act s written
    refused.1 = .error (.mishap (.notCallable "int")) ∧
      refused.2.tables.sources ≠ written.tables.sources := by
  decide +kernel

end Insertion

end Memory

end Loadable
