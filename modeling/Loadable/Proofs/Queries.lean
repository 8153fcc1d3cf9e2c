import Loadable.Proofs.FileStack
import Loadable.Proofs.FirstMatch
import Loadable.Proofs.Finality
import Loadable.Proofs.HostChanges
import Loadable.Proofs.Routing
import Loadable.Proofs.Tree
/-!
What a store says about a path fits together, whatever its kind: a directory exists, what can be read
is no directory, and what exists without being one can be loaded unless the host denies it.
-/
namespace Loadable

namespace Tables

/-- No directory holds a source. Hooks may stand on directories, for the host takes them anywhere. -/
def SourcesApart (t : Tables) : Prop :=
  ∀ key, t.sources.contains key = true → t.isDirectory key = false

variable {t after : Tables} {key other : Key} {i : Insertion}

theorem Put.source_of (put : t.Put key i after) (held : after.sources.contains other = true) :
    other = key ∨ t.sources.contains other = true := by
  by_cases same : other = key
  · exact .inl same
  · right
    cases put with
    | source path data => simpa [KeyMap.contains, KeyMap.get?_insert, same] using held
    | hook path h => simpa [KeyMap.contains, KeyMap.get?_erase, same] using held

theorem Put.sourcesApart (put : t.Put key i after) (checked : t.checkInsert key = .ok ())
    (apart : t.SourcesApart) : after.SourcesApart := by
  intro other held
  refine put.undirected checked ((put.source_of held).imp_right fun held => ?_)
  exact ⟨by simp [Tables.isFile, held], apart other held⟩

theorem insert_sourcesApart (apart : t.SourcesApart) (key : Key) (i : Insertion) :
    (t.insert key i).2.SourcesApart := by
  cases ended : (t.insert key i).1 with
  | ok =>
    obtain ⟨checked, put⟩ := insert_ok ended
    exact put.sourcesApart checked apart
  | error raised =>
    intro other held
    have lost := insert_mayLose ended
    rw [lost.isDirectory]
    exact apart other (lost.source_of held)

theorem Inserted.sourcesApart (inserted : t.Inserted after) (apart : t.SourcesApart) :
    after.SourcesApart := by
  cases inserted with
  | @write _ key data done =>
    have left := insert_sourcesApart apart key (.write (.bytes key) (.bytes data))
    simp only [insert, GivenData.asBytes, done] at left
    exact left
  | register key given => exact insert_sourcesApart apart key (.register (.bytes key) given)
  | removeHook key => exact apart
  | registerHook done => exact apart

end Tables

def Call.RunsAt (key : Key) : Call → Prop
  | hook place _ => place = key
  | source filename _ => filename = Text.decode key
  | require _ | load _ => False

theorem Evolves.keeps {holds : Tables → Prop}
    (inserts : ∀ {t after : Tables}, t.Inserted after → holds t → holds after)
    (marks : ∀ {t : Tables} (features : Registry), holds t → holds { t with features := features })
    {w after : World} (evolves : Evolves w after) (before : holds w.tables) : holds after.tables := by
  induction evolves with
  | aside tables host files history started => rwa [tables]
  | host changed => exact before
  | insert inserted => exact inserts inserted before
  | trans first rest left right => exact right (left before)
  | source filename data ended body ih => exact ih before
  | hook key hook ended body ih => exact ih before
  | load key ended body ih => exact ih before
  | require feature unknown body ih => exact marks _ (ih before)
  | requireFailed feature raised unknown body ih => exact ih before
  | requireAgain feature known => exact before

theorem Later.sourcesApart {setup : Setup} {w v : World} (later : Later setup w.fresh v) :
    v.tables.SourcesApart := by
  apply later.keeps
  · intro depth st v apart
    have evolves := Session.step_evolving (Session.runScript_evolving setup depth) setup st v
    exact evolves.keeps Tables.Inserted.sourcesApart (fun features apart => apart) apart
  · intro t feature apart
    exact apart
  · intro key held
    cases held

namespace Host

variable {host : Host} {key : Key}

theorem pathExists_of_isDirectory (directory : host.isDirectory key = true) :
    host.pathExists key = true := by
  unfold isDirectory at directory
  unfold pathExists
  rw [Bool.and_eq_true] at directory ⊢
  refine ⟨directory.1, ?_⟩
  split at directory
  case h_1 found =>
    rw [found]
    rfl
  case h_2 => cases directory.2

theorem stat_file (tree : host.IsTree) (there : host.pathExists key = true)
    (undirected : host.isDirectory key = false) :
    hasNul key = false ∧ ∃ place data mode, host.stat key = .ok (place, .file data mode) := by
  simp only [pathExists, Bool.and_eq_true, Bool.not_eq_true'] at there
  obtain ⟨free, found⟩ := there
  refine ⟨free, ?_⟩
  cases seen : host.stat key with
  | error failure =>
    rw [seen] at found
    cases found
  | ok spot =>
    obtain ⟨place, node⟩ := spot
    cases node with
    | file data mode => exact ⟨place, data, mode, rfl⟩
    | directory mode => simp [isDirectory, free, seen] at undirected
    | link target => exact absurd rfl (stat_followed tree seen target)

theorem readKey_file {place : Place} {data : Bytes} {mode : Nat} (free : hasNul key = false)
    (found : host.stat key = .ok (place, .file data mode)) :
    host.readKey key = .ok data ∨ host.readKey key = .error (.fault (.denied key .denied)) := by
  have undirected : host.isDirectory key = false := by simp [isDirectory, found]
  have read : host.readFile key = .ok data ∨ host.readFile key = .error .denied := by
    unfold readFile
    rw [found]
    split
    · exact .inr rfl
    · simp only
      split
      · exact .inr rfl
      · exact .inl rfl
  rcases read with read | read
  · simp [readKey, free, read]
  · simp [readKey, free, read, undirected, Fault.ofHost, HostFailure.denied, HostFailure.kind]

theorem readKey_ok {data : Bytes} (read : host.readKey key = .ok data) :
    host.pathExists key = true ∧ host.isDirectory key = false := by
  unfold readKey at read
  split at read
  · cases read
  rename_i free
  cases opened : host.readFile key with
  | error failure =>
    rw [opened] at read
    simp only at read
    split at read <;> cases read
  | ok found =>
    unfold readFile at opened
    split at opened
    · cases opened
    cases seen : host.stat key with
    | error failure =>
      rw [seen] at opened
      cases opened
    | ok spot =>
      obtain ⟨place, node⟩ := spot
      rw [seen] at opened
      simp only at opened
      split at opened
      · cases opened
      cases node with
      | file data mode => simp [pathExists, isDirectory, free, seen, Except.isOk, Except.toBool]
      | directory mode => cases opened
      | link target => cases opened

end Host

namespace Side

def has (key : Key) (w : World) : Side → Bool
  | memory => w.tables.has key
  | native => Store.hasKey key w

def isDirectory (key : Key) (w : World) : Side → Bool
  | memory => w.tables.isDirectory key
  | native => w.host.isDirectory key

def read (key : Key) (w : World) : Side → Except Raised Bytes
  | memory => (w.tables.read key).mapError .fault
  | native => w.host.readKey key

def callee (key : Key) (w : World) (side : Side) : Except Raised Call :=
  match w.tables.hooks.get? key with
  | some hook => .ok (.hook key hook)
  | none => (side.read key w).map (.source (Text.decode key))

variable {key : Key} {w : World} {side : Side}

theorem has_of_isDirectory (directory : side.isDirectory key w = true) : side.has key w = true := by
  cases side with
  | memory =>
    have recorded : w.tables.isDirectory key = true := directory
    simp [has, Tables.has, recorded]
  | native => simp [has, Store.hasKey, Host.pathExists_of_isDirectory directory]

theorem of_read (apart : w.tables.SourcesApart) {data : Bytes} (read : side.read key w = .ok data) :
    side.has key w = true ∧ side.isDirectory key w = false := by
  cases side with
  | memory =>
    have held : w.tables.sources.contains key = true := by
      cases source : w.tables.sources.get? key with
      | some data => simp [KeyMap.contains, source]
      | none =>
        simp only [Side.read, Tables.read, source] at read
        split at read <;> cases read
    exact ⟨by simp [has, Tables.has, Tables.isFile, held], apart key held⟩
  | native =>
    obtain ⟨there, undirected⟩ := Host.readKey_ok read
    exact ⟨by simp [has, Store.hasKey, there], undirected⟩

theorem callee_of_has (tree : w.host.IsTree) (there : side.has key w = true)
    (undirected : side.isDirectory key w = false) :
    (∃ made : Call, made.RunsAt key ∧ side.callee key w = .ok made) ∨
      side.callee key w = .error (.fault (.denied key .denied)) := by
  unfold callee
  cases held : w.tables.hooks.get? key with
  | some hook => exact .inl ⟨.hook key hook, rfl, rfl⟩
  | none =>
    cases side with
    | memory =>
      left
      have bare : w.tables.isDirectory key = false := undirected
      simp only [has, Tables.has, Tables.isFile, bare, KeyMap.contains, held, Option.isSome_none,
        Bool.or_false] at there
      obtain ⟨data, source⟩ := Option.isSome_iff_exists.1 there
      refine ⟨.source (Text.decode key) data, rfl, ?_⟩
      simp [read, Tables.read, source, Except.mapError, Except.map]
    | native =>
      have stands : w.host.pathExists key = true := by
        simpa [has, Store.hasKey, KeyMap.contains, held] using there
      obtain ⟨free, place, data, mode, found⟩ := Host.stat_file tree stands undirected
      rcases Host.readKey_file free found with reads | denied
      · exact .inl ⟨.source (Text.decode key) data, rfl, by simp [read, reads, Except.map]⟩
      · exact .inr (by simp [read, denied, Except.map])

end Side

theorem InMemory.read_answer (key : Key) (w : World) :
    (InMemory.read key w).1 = Side.memory.read key w := by
  simp only [InMemory.read, Act.bind_apply, Act.world, Side.read]
  cases w.tables.read key <;> rfl

theorem OnHost.read_answer (key : Key) (w : World) :
    (OnHost.read key w).1 = Side.native.read key w := by
  simp only [OnHost.read, Act.bind_apply, Act.world, Side.read]
  cases w.host.readKey key <;> rfl

namespace Store

variable {s : Store} {path : GivenPath} {key : Key} {side : Side} {w : World}

structure KeepsTo (s : Store) (side : Side) (key : Key) : Prop where
  contains : ∀ w, (s.containsKey key w).1 = .ok (side.has key w)
  isDirectory : ∀ w, (s.keyIsDirectory key w).1 = .ok (side.isDirectory key w)
  read : ∀ w, (s.readKey key w).1 = side.read key w

theorem keepsTo_memory (kind : s.backend = .memory) (key : Key) : s.KeepsTo .memory key where
  contains w := by rw [containsKey, kind]; rfl
  isDirectory w := by rw [keyIsDirectory, kind]; rfl
  read w := by rw [readKey, kind]; exact InMemory.read_answer key w

theorem keepsTo_native (kind : s.backend = .native) (key : Key) : s.KeepsTo .native key where
  contains w := by rw [containsKey, kind]; rfl
  isDirectory w := by rw [keyIsDirectory, kind]; rfl
  read w := by rw [readKey, kind]; exact OnHost.read_answer key w

theorem keepsTo_hybrid {nativeCwd : Text} (kind : s.backend = .hybrid nativeCwd) (key : Key) :
    s.KeepsTo (s.side key) key where
  contains w := by
    simp only [containsKey, kind, Act.bind_apply, route_eq]
    cases s.side key <;> rfl
  isDirectory w := by
    simp only [keyIsDirectory, kind, Act.bind_apply, route_eq]
    cases s.side key <;> rfl
  read w := by
    simp only [readKey, kind, Act.bind_apply, route_eq]
    cases s.side key with
    | memory => exact InMemory.read_answer key _
    | native => exact OnHost.read_answer key _

theorem KeepsTo.callee (keeps : s.KeepsTo side key) (w : World) :
    (s.callee key w).1 = side.callee key w := by
  unfold Side.callee
  cases held : w.tables.hooks.get? key with
  | some hook => rw [callee_hook s held]
  | none =>
    rw [callee_source s held, ← keeps.read w, Act.bind_apply]
    cases s.readKey key w with
    | mk result after => cases result <;> rfl

/-- Whatever is asked about the path is answered by a side for a key. -/
structure AnswersFor (s : Store) (path : GivenPath) (w : World) (side : Side) (key : Key) : Prop where
  contains : (s.contains path w).1 = .ok (side.has key w)
  isDirectory : (s.isDirectory path w).1 = .ok (side.isDirectory key w)
  read : (s.read path w).1 = side.read key w
  target : (s.target path w).1 = (side.callee key w).map (key, ·)

theorem LeadsTo.answersFor (leads : s.LeadsTo path key) (keeps : s.KeepsTo side key) (w : World) :
    s.AnswersFor path w side key where
  contains := by rw [leads.contains_eq, keeps.contains]
  isDirectory := by rw [leads.isDirectory_eq, keeps.isDirectory]
  read := by rw [leads.read_eq, keeps.read]
  target := by
    have goes : s.target path = do return (key, ← s.callee key) :=
      leads.goes _ fun key => do return (key, ← s.callee key)
    rw [goes, Act.answer_apply, keeps.callee]

theorem AnswersFor.load_calls (answers : s.AnswersFor path w side key) {made : Call}
    (callee : side.callee key w = .ok made) (run : ScriptRunner) :
    ∃ within ran, (s.load run path w).2.history = w.history.call (.load key)
      (.call .nothing made within ran) ((s.load run path w).1.map .outcome) := by
  obtain ⟨since, history, ends⟩ := s.load_ends run path w
  rw [answers.target, callee] at ends
  obtain ⟨within, ran, rfl, _⟩ := ends
  exact ⟨within, ran, history⟩

theorem AnswersFor.load_fails (answers : s.AnswersFor path w side key) {raised : Raised}
    (callee : side.callee key w = .error raised) (run : ScriptRunner) :
    (s.load run path w).1 = .error raised := by
  obtain ⟨since, history, ends⟩ := s.load_ends run path w
  rw [answers.target, callee] at ends
  exact ends.1

/-- A store that is no search path has one key for a path, or is asked in vain. -/
theorem leadsTo_or_fails (single : ∀ roots, s.backend ≠ .searchPath roots) (path : GivenPath) :
    (∃ side key, s.LeadsTo path key ∧ s.KeepsTo side key) ∨
      ∃ raised, ∀ w, s.resolve path w = (.error raised, w) := by
  cases kind : s.backend with
  | searchPath roots => exact absurd kind (single roots)
  | memory =>
    cases resolved : s.ownKey path with
    | ok key => exact .inl ⟨_, key, leadsTo_ownKey (.inl kind) resolved, keepsTo_memory kind key⟩
    | error raised =>
      refine .inr ⟨raised, fun w => ?_⟩
      rw [resolve, kind, resolved]
      rfl
  | native =>
    cases resolved : s.ownKey path with
    | ok key => exact .inl ⟨_, key, leadsTo_ownKey (.inr kind) resolved, keepsTo_native kind key⟩
    | error raised =>
      refine .inr ⟨raised, fun w => ?_⟩
      rw [resolve, kind, resolved]
      rfl
  | hybrid nativeCwd =>
    cases resolved : s.ownKey path with
    | ok key =>
      refine .inl ⟨_, s.foldDrive key, ⟨single, fun w => ?_⟩, keepsTo_hybrid kind _⟩
      rw [resolve, kind, resolved]
      rfl
    | error raised =>
      refine .inr ⟨raised, fun w => ?_⟩
      rw [resolve, kind, resolved]
      rfl

structure AnswersNothing (s : Store) (path : GivenPath) (w : World) : Prop where
  contains : (s.contains path w).1 ≠ .ok true
  isDirectory : (s.isDirectory path w).1 ≠ .ok true
  read : ∀ data, (s.read path w).1 ≠ .ok data

theorem fails_with {α : Type} (single : ∀ roots, s.backend ≠ .searchPath roots) {raised : Raised}
    (fails : s.resolve path w = (.error raised, w)) (search : List Text → Act α)
    (serve : Key → Act α) :
    (match s.backend with
      | .searchPath roots => search roots
      | _ => s.resolve path >>= serve) w = (.error raised, w) := by
  cases kind : s.backend with
  | searchPath roots => exact absurd kind (single roots)
  | _ => simp only [Act.bind_apply, fails]

theorem answersNothing_of_fails (single : ∀ roots, s.backend ≠ .searchPath roots) {raised : Raised}
    (fails : s.resolve path w = (.error raised, w)) : s.AnswersNothing path w := by
  have contains : s.contains path w = (.error raised, w) := fails_with single fails _ _
  have isDirectory : s.isDirectory path w = (.error raised, w) := fails_with single fails _ _
  have read : s.read path w = (.error raised, w) := fails_with single fails _ _
  refine ⟨?_, ?_, fun data => ?_⟩
  · simp [contains]
  · simp [isDirectory]
  · simp [read]

section SearchPath

variable {roots : List Text} (kind : s.backend = .searchPath roots)

include kind

theorem answersFor_found {root : Text} {after : World}
    (found : s.findIn path roots w = (.ok (some (root, key)), after)) :
    s.AnswersFor path w .native key := by
  have unchanged := (s.findIn_looks path roots).quiet.eq_log found
  have searched := findOrRaise_ok.2 found
  have keeps := (s.nativeAt root).keepsTo_native rfl key
  refine ⟨?_, ?_, ?_, ?_⟩
  · have there : Side.native.has key w = true := findIn_there found
    simp only [contains, kind, Act.bind_apply, found, there]
    rfl
  · simp only [isDirectory, kind, Act.bind_apply, found]
    rw [unchanged]
    rfl
  · simp only [read, kind, Act.bind_apply, searched]
    rw [unchanged]
    exact OnHost.read_answer key _
  · have goes : s.target path w = (do return (key, ← (s.nativeAt root).callee key) : Act _) after := by
      simp only [target, kind, Act.bind_apply, searched]
    rw [goes, Act.answer_apply, keeps.callee, unchanged]
    rfl

theorem answersNothing_missed (missed : ∀ found, (s.findIn path roots w).1 ≠ .ok (some found)) :
    s.AnswersNothing path w := by
  have ends : (∃ raised after, s.findIn path roots w = (.error raised, after)) ∨
      ∃ after, s.findIn path roots w = (.ok none, after) := by
    cases searched : s.findIn path roots w with
    | mk result after =>
      rw [searched] at missed
      cases result with
      | error raised => exact .inl ⟨raised, after, rfl⟩
      | ok found =>
        cases found with
        | none => exact .inr ⟨after, rfl⟩
        | some place => exact absurd rfl (missed place)
  refine ⟨?_, ?_, fun data => ?_⟩
  · simp only [contains, kind, Act.bind_apply]
    rcases ends with ⟨raised, after, failed⟩ | ⟨after, nowhere⟩
    · simp [failed]
    · simp [nowhere]
  · simp only [isDirectory, kind, Act.bind_apply]
    rcases ends with ⟨raised, after, failed⟩ | ⟨after, nowhere⟩
    · simp [failed]
    · simp [nowhere]
  · simp only [read, kind, Act.bind_apply]
    cases searched : s.findOrRaise roots path w with
    | mk result after =>
      cases result with
      | error raised => simp
      | ok found => exact absurd (congrArg Prod.fst (findOrRaise_ok.1 searched)) (missed found)

end SearchPath

/-- Every path is answered for by a side of the store or has nothing to be found at it. -/
theorem answersFor_or_nothing (s : Store) (path : GivenPath) (w : World) :
    (∃ side key, s.AnswersFor path w side key) ∨ s.AnswersNothing path w := by
  by_cases search : ∃ roots, s.backend = .searchPath roots
  · obtain ⟨roots, kind⟩ := search
    by_cases found : ∃ root key after, s.findIn path roots w = (.ok (some (root, key)), after)
    · obtain ⟨root, key, after, found⟩ := found
      exact .inl ⟨.native, key, answersFor_found kind found⟩
    · refine .inr (answersNothing_missed kind fun place same => found ?_)
      exact ⟨place.1, place.2, _, Prod.ext same rfl⟩
  · have single : ∀ roots, s.backend ≠ .searchPath roots := fun roots kind => search ⟨roots, kind⟩
    rcases leadsTo_or_fails single path with ⟨side, key, leads, keeps⟩ | ⟨raised, fails⟩
    · exact .inl ⟨side, key, leads.answersFor keeps w⟩
    · exact .inr (answersNothing_of_fails single (fails w))

end Store

namespace Session

theorem Passes.isTree {setup : Setup} {depth : Nat} {st : Step} {w v : World} {calls : List Call}
    (passes : Passes setup depth st w calls v) (tree : w.host.IsTree) : v.host.IsTree := by
  induction passes with
  | before => exact tree
  | @after depth st w => exact (step_evolving (runScript_evolving setup depth) setup st w).isTree tree
  | @enters depth st w start made script makes =>
    have same : start.host = w.host := (Stored.mk.inj makes.stored).2
    rwa [same]
  | @leaves depth st w start made script makes =>
    have same : start.host = w.host := (Stored.mk.inj makes.stored).2
    refine (runScript_evolving setup depth script start).isTree ?_
    rwa [same]
  | @inside depth st w start first reached v made script past rest inner calls makes next reaches
      passes ih =>
    have same : start.host = w.host := (Stored.mk.inj makes.stored).2
    rw [← same] at tree
    exact ih (((nextRun_evolves next).trans (runSteps_evolves reaches)).isTree tree)

/-- What the queries say about a path fits together, for every store and in all the worlds that a
session comes to. A directory exists; what can be read exists and is no directory; and a load of what
exists without being a directory runs a hook or a source, or is denied by the host. The host is to be
a tree for that, as it stays at every point of a session that begins with one. -/
theorem queries_agree {setup : Setup} {w v : World} (later : Later setup w.fresh v) (s : Store)
    (path : GivenPath) :
    ((s.isDirectory path v).1 = .ok true → (s.contains path v).1 = .ok true) ∧
    (∀ data, (s.read path v).1 = .ok data →
      (s.contains path v).1 = .ok true ∧ (s.isDirectory path v).1 = .ok false) ∧
    (v.host.IsTree → (s.contains path v).1 = .ok true → (s.isDirectory path v).1 = .ok false →
      (∃ key made, made.RunsAt key ∧ ∀ run, ∃ within ran, (s.load run path v).2.history =
        v.history.call (.load key) (.call .nothing made within ran)
          ((s.load run path v).1.map .outcome)) ∨
      ∃ key, ∀ run, (s.load run path v).1 = .error (.fault (.denied key .denied))) ∧
    (v.host.IsTree → ∀ depth st calls u, Passes setup depth st v calls u → u.host.IsTree) := by
  refine ⟨?_, ?_, ?_, fun tree depth st calls u passes => passes.isTree tree⟩
  · intro directory
    rcases s.answersFor_or_nothing path v with ⟨side, key, answers⟩ | nothing
    · rw [answers.isDirectory] at directory
      rw [answers.contains, Side.has_of_isDirectory (Except.ok.inj directory)]
    · exact absurd directory nothing.isDirectory
  · intro data read
    rcases s.answersFor_or_nothing path v with ⟨side, key, answers⟩ | nothing
    · rw [answers.read] at read
      obtain ⟨there, undirected⟩ := Side.of_read later.sourcesApart read
      rw [answers.contains, answers.isDirectory, there, undirected]
      exact ⟨rfl, rfl⟩
    · exact absurd read (nothing.read data)
  · intro tree there undirected
    rcases s.answersFor_or_nothing path v with ⟨side, key, answers⟩ | nothing
    · rw [answers.contains] at there
      rw [answers.isDirectory] at undirected
      rcases Side.callee_of_has tree (Except.ok.inj there) (Except.ok.inj undirected) with
        ⟨made, runs, callee⟩ | denied
      · exact .inl ⟨key, made, runs, answers.load_calls callee⟩
      · exact .inr ⟨key, answers.load_fails denied⟩
    · exact absurd there nothing.contains

/-- In a hybrid store a source that was written is there to be run. -/
theorem written_source_runs :
    let setup : Setup := { store := ⟨.posix, Flavor.posix.loadRoot, .hybrid ("/" : Text)⟩ }
    let path : GivenPath := .text ("a.rb" : Text)
    let v := (run setup [⟨.whole, .write path (.bytes (Bytes.ofString "x = 1"))⟩] {}).2
    ∃ key made, made.RunsAt key ∧ ∀ run, ∃ within ran, (setup.store.load run path v).2.history =
      v.history.call (.load key) (.call .nothing made within ran)
        ((setup.store.load run path v).1.map .outcome) := by
  intro setup path v
  have later : Later setup (World.fresh {}) v := Later.now.run _
  have tree : v.host.IsTree := Host.isTree_of_listed (by decide) (by decide) (by decide)
  have there : (setup.store.contains path v).1 = .ok true := by decide +kernel
  have undirected : (setup.store.isDirectory path v).1 = .ok false := by decide +kernel
  have loads : (setup.store.load (fun _ => pure ()) path v).1 = .ok .executed := by decide +kernel
  rcases (queries_agree later setup.store path).2.2.1 tree there undirected with runs | ⟨key, denied⟩
  · exact runs
  · rw [denied] at loads
    cases loads

end Session

end Loadable
