import Loadable.Proofs.Sides
import Mathlib.Data.List.Find
/-!
Inside its reserved directory a hybrid store answers as a memory store does that gets only what is
asked there. For this nothing outside may reach in: a hook above the directory does, for it stands
above every source, and so does a feature whose canonical path leads into it.
-/
namespace Loadable

structure HookTable.AlikeInside (table other : HookTable) : Prop where
  inside : ∀ {key}, Key.isUnder reserved key = true → table.get? key = other.get? key
  above : ∀ {key}, key ∈ Key.parents reserved → table.get? key = none ∧ other.get? key = none

theorem not_isUnder_above :
    ∀ {key}, key ∈ Key.parents reserved → Key.isUnder reserved key = false := by
  decide

theorem Registry.isLoaded_mark (features : Registry) (feature key : Key) :
    (features.mark feature).isLoaded key = (features.isLoaded key || decide (key = feature)) := by
  rw [Bool.eq_iff_iff, isLoaded_iff, mem_mark, Bool.or_eq_true, isLoaded_iff, decide_eq_true_iff]

namespace HookTable.AlikeInside

variable {table other : HookTable} {key : Key}

theorem erase (alike : AlikeInside table other) (key : Key) :
    AlikeInside (table.erase key) (other.erase key) where
  inside := by
    intro place under
    rw [KeyMap.get?_erase, KeyMap.get?_erase, alike.inside under]
  above := by
    intro place member
    obtain ⟨free, alsoFree⟩ := alike.above member
    rw [KeyMap.get?_erase, KeyMap.get?_erase, free, alsoFree]
    split <;> exact ⟨rfl, rfl⟩

theorem insert (alike : AlikeInside table other) (under : Key.isUnder reserved key = true)
    (hook : Hook) : AlikeInside (table.insert key hook) (other.insert key hook) where
  inside := by
    intro place below
    rw [KeyMap.get?_insert, KeyMap.get?_insert, alike.inside below]
  above := by
    intro place member
    have different : place ≠ key := (ne_of_isUnder under (not_isUnder_above member)).symm
    rw [KeyMap.get?_insert, KeyMap.get?_insert, if_neg different, if_neg different]
    exact alike.above member

theorem erase_outside (alike : AlikeInside table other) (outside : Key.isUnder reserved key = false) :
    AlikeInside (table.erase key) other where
  inside := by
    intro place under
    rw [KeyMap.get?_erase, if_neg (ne_of_isUnder under outside), alike.inside under]
  above := by
    intro place member
    obtain ⟨free, alsoFree⟩ := alike.above member
    rw [KeyMap.get?_erase, free, alsoFree]
    split <;> exact ⟨rfl, rfl⟩

theorem insert_outside (alike : AlikeInside table other) (outside : Key.isUnder reserved key = false)
    (aside : key ∉ Key.parents reserved) (hook : Hook) :
    AlikeInside (table.insert key hook) other where
  inside := by
    intro place under
    rw [KeyMap.get?_insert, if_neg (ne_of_isUnder under outside), alike.inside under]
  above := by
    intro place member
    have different : place ≠ key := by
      rintro rfl
      exact aside member
    rw [KeyMap.get?_insert, if_neg different]
    exact alike.above member

end HookTable.AlikeInside

structure Mirrors (st other : Stored) : Prop where
  sources : st.tables.sources = other.tables.sources
  directories : st.tables.directories = other.tables.directories
  hooks : HookTable.AlikeInside st.tables.hooks other.tables.hooks
  features : ∀ {key}, Key.isUnder reserved key = true →
    st.tables.features.isLoaded key = other.tables.features.isLoaded key

namespace Mirrors

variable {st other : Stored} {key feature : Key} {i : Insertion}

theorem fresh (w v : World) : Mirrors w.fresh.stored v.fresh.stored where
  sources := rfl
  directories := rfl
  hooks := ⟨fun _ => rfl, fun _ => ⟨rfl, rfl⟩⟩
  features _ := rfl

theorem isDirectory_eq (mirrors : Mirrors st other) (key : Key) :
    st.tables.isDirectory key = other.tables.isDirectory key := by
  unfold Tables.isDirectory
  rw [mirrors.directories]

theorem isFile_eq (mirrors : Mirrors st other)
    (near : Key.isUnder reserved key = true ∨ key ∈ Key.parents reserved) :
    st.tables.isFile key = other.tables.isFile key := by
  have same : st.tables.hooks.get? key = other.tables.hooks.get? key := by
    rcases near with under | member
    · exact mirrors.hooks.inside under
    · obtain ⟨free, alsoFree⟩ := mirrors.hooks.above member
      rw [free, alsoFree]
  unfold Tables.isFile KeyMap.contains
  rw [mirrors.sources, same]

theorem has_eq (mirrors : Mirrors st other) (under : Key.isUnder reserved key = true) :
    st.tables.has key = other.tables.has key := by
  unfold Tables.has
  rw [mirrors.isFile_eq (.inl under), mirrors.isDirectory_eq]

theorem read_eq (mirrors : Mirrors st other) (key : Key) :
    st.tables.read key = other.tables.read key := by
  unfold Tables.read
  rw [mirrors.sources, mirrors.isDirectory_eq]

/-- What stands above a key of the directory is in it or above it. -/
theorem checkInsert_eq (mirrors : Mirrors st other) (under : Key.isUnder reserved key = true) :
    st.tables.checkInsert key = other.tables.checkInsert key := by
  have files : ∀ parent ∈ Key.parents key, st.tables.isFile parent = other.tables.isFile parent :=
    fun parent member => mirrors.isFile_eq (Key.isUnder_of_mem_parents under member)
  unfold Tables.checkInsert
  rw [mirrors.isDirectory_eq, List.find?_congr files]

theorem insert (mirrors : Mirrors st other) (under : Key.isUnder reserved key = true) (i : Insertion) :
    (st.insert key .memory i).1 = (other.insert key .memory i).1 ∧
      Mirrors (st.insert key .memory i).2 (other.insert key .memory i).2 := by
  have checked := mirrors.checkInsert_eq under
  let recorded (key : Key) (known : List Key) : List Key :=
    known ++ (Key.parents key).filter (!known.contains ·)
  cases i with
  | write path data =>
    simp only [Stored.insert, Tables.insert, Tables.write, checked]
    cases data with
    | unusable typeName => exact ⟨rfl, mirrors⟩
    | bytes data =>
      cases other.tables.checkInsert key with
      | error fault => exact ⟨rfl, mirrors⟩
      | ok =>
        refine ⟨rfl, ?_, ?_, mirrors.hooks.erase key, mirrors.features⟩
        · exact congrArg (KeyMap.insert · key data) mirrors.sources
        · exact congrArg (recorded key) mirrors.directories
  | register path given =>
    simp only [Stored.insert, Tables.insert, Tables.register, checked]
    cases other.tables.checkInsert key with
    | error fault => exact ⟨rfl, mirrors⟩
    | ok =>
      cases given with
      | uncallable typeName =>
        exact ⟨rfl, congrArg (KeyMap.erase · key) mirrors.sources, mirrors.directories,
          mirrors.hooks, mirrors.features⟩
      | hook hook =>
        refine ⟨rfl, ?_, ?_, mirrors.hooks.insert under hook, mirrors.features⟩
        · exact congrArg (KeyMap.erase · key) mirrors.sources
        · exact congrArg (recorded key) mirrors.directories

theorem insert_outside (mirrors : Mirrors st other) (outside : Key.isUnder reserved key = false)
    (aside : ∀ path given, i = .register path given → (st.insert key .native i).1 = .ok () →
      key ∉ Key.parents reserved) : Mirrors (st.insert key .native i).2 other := by
  cases i with
  | write path data =>
    cases data with
    | unusable typeName => exact mirrors
    | bytes data =>
      simp only [Stored.insert, GivenData.asBytes]
      cases st.host.writeKey key data with
      | mk result host =>
        cases result with
        | error raised =>
          exact ⟨mirrors.sources, mirrors.directories, mirrors.hooks, mirrors.features⟩
        | ok =>
          exact ⟨mirrors.sources, mirrors.directories, mirrors.hooks.erase_outside outside,
            mirrors.features⟩
  | register path given =>
    cases given with
    | uncallable typeName => exact mirrors
    | hook hook =>
      exact ⟨mirrors.sources, mirrors.directories,
        mirrors.hooks.insert_outside outside (aside path _ rfl rfl) hook, mirrors.features⟩

theorem mark (mirrors : Mirrors st other) (feature : Key) :
    Mirrors (st.mark feature) (other.mark feature) where
  sources := mirrors.sources
  directories := mirrors.directories
  hooks := mirrors.hooks
  features := by
    intro key under
    change (st.tables.features.mark feature).isLoaded key =
      (other.tables.features.mark feature).isLoaded key
    rw [Registry.isLoaded_mark, Registry.isLoaded_mark, mirrors.features under]

theorem mark_outside (mirrors : Mirrors st other) (outside : Key.isUnder reserved feature = false) :
    Mirrors (st.mark feature) other where
  sources := mirrors.sources
  directories := mirrors.directories
  hooks := mirrors.hooks
  features := by
    intro key under
    change (st.tables.features.mark feature).isLoaded key = _
    rw [Registry.isLoaded_mark, mirrors.features under, decide_eq_false (ne_of_isUnder under outside),
      Bool.or_false]

end Mirrors

open Act (Agree)

variable {cwd nativeCwd : Text} {key : Key}

/-- In the directory the memory store answers alike on tables that look alike from there. -/
theorem answers_mirrors (under : Key.isUnder reserved key = true) :
    Side.memory.Answers Mirrors cwd key where
  contains := by
    refine .world fun u z mirrors => ?_
    have same : u.tables.has key = z.tables.has key := mirrors.has_eq under
    rw [same]
    exact .of (.ok _)
  isDirectory := by
    refine .world fun u z mirrors => ?_
    have same : u.tables.isDirectory key = z.tables.isDirectory key := mirrors.isDirectory_eq key
    rw [same]
    exact .of (.ok _)
  read := by
    refine .world fun u z mirrors => ?_
    have same : u.tables.read key = z.tables.read key := mirrors.read_eq key
    rw [same]
    exact .ofFault _
  hook mirrors := mirrors.hooks.inside under
  inserts i _ _ mirrors := mirrors.insert under i

section Keys

variable {run copy : ScriptRunner} (serves : (Store.hybrid cwd nativeCwd).side key = .memory)

include serves

theorem featureKey_reserved (w : World) : (Store.hybrid cwd nativeCwd).featureKey key w =
    (.ok key, (Store.hybrid cwd nativeCwd).routed key w) := by
  rw [Store.featureKey_hybrid serves]
  rfl

variable (under : Key.isUnder reserved key = true)

include under

theorem isRequired_mirrors :
    Agree Mirrors
      (do
        let feature ← (Store.hybrid cwd nativeCwd).featureKey key
        return (← Act.world).tables.features.isLoaded feature)
      (do
        let feature ← (Store.memory .posix cwd).featureKey key
        return (← Act.world).tables.features.isLoaded feature) := by
  have asked : Agree Mirrors (do return (← Act.world).tables.features.isLoaded key)
      (do return (← Act.world).tables.features.isLoaded key) := by
    refine .world fun u z mirrors => ?_
    have same : u.tables.features.isLoaded key = z.tables.features.isLoaded key :=
      mirrors.features under
    rw [same]
    exact .of (.ok _)
  refine asked.start (fun w => ?_) fun v => ⟨v, rfl, rfl⟩
  refine ⟨_, Store.routed_stored (.hybrid cwd nativeCwd) key w, ?_⟩
  rw [Act.bind_apply, featureKey_reserved serves]

variable (scripts : ∀ script, Agree Mirrors (run script) (copy script))

include scripts

theorem loadKey_mirrors : Agree Mirrors ((Store.hybrid cwd nativeCwd).loadKey run key)
    ((Store.memory .posix cwd).loadKey copy key) := by
  have answers : Side.memory.Answers Mirrors cwd key := answers_mirrors under
  exact Store.loadKey_agree scripts answers.hook (answers.readKey_agree serves)

theorem requireKey_mirrors : Agree Mirrors ((Store.hybrid cwd nativeCwd).requireKey run key)
    ((Store.memory .posix cwd).requireKey copy key) := by
  have answers : Side.memory.Answers Mirrors cwd key := answers_mirrors under
  have body := Store.requireFeature_agree scripts answers.hook (answers.readKey_agree serves)
    (fun mirrors => mirrors.features under) fun mirrors => mirrors.mark key
  refine (body.recorded (.require key) (.require key) .outcome).start (fun w => ?_) fun v => ?_
  · refine ⟨_, Store.routed_stored (.hybrid cwd nativeCwd) key w, ?_⟩
    rw [Store.requireKey, Act.bind_apply, featureKey_reserved serves]
  · exact ⟨v, rfl, rfl⟩

end Keys

namespace Session

open Store (leadsTo_hybrid leadsTo_store)

/-- An operation in the reserved directory agrees with that of a memory store. -/
theorem reserved_mirrors (base : Place) {action : Action}
    (keeps : action.isReserved (.hybrid cwd nativeCwd) = true) (run copy : ScriptRunner)
    (scripts : ∀ script, Agree Mirrors (run script) (copy script)) :
    Agree Mirrors (act run base (.hybrid cwd nativeCwd) action)
      (act copy base (.memory .posix cwd) action) := by
  obtain ⟨path, key, named, resolved, inside⟩ := Action.isReserved_iff.1 keeps
  obtain ⟨serves, under⟩ := Store.serves_reserved resolved inside
  have leads := leadsTo_hybrid resolved
  have alone : (Store.memory .posix cwd).LeadsTo path key := leadsTo_store resolved .memory
  have atKey : ∀ atKey : action.IsAtKey, Agree Mirrors (act run base (.hybrid cwd nativeCwd) action)
      (act copy base (.memory .posix cwd) action) := fun atKey =>
    (answers_mirrors under).act_agree serves resolved named atKey run copy
  cases action with
  | isRequired other =>
    cases named
    refine Agree.answer ?_ _
    rw [leads.isRequired_eq, alone.isRequired_eq]
    exact isRequired_mirrors serves under
  | require other =>
    cases named
    refine Agree.answer ?_ _
    rw [leads.require_eq, alone.require_eq]
    exact requireKey_mirrors serves under scripts
  | load other =>
    cases named
    refine Agree.answer ?_ _
    rw [leads.load_eq, alone.load_eq]
    exact loadKey_mirrors serves under scripts
  | contains _ => exact atKey trivial
  | isDirectory _ => exact atKey trivial
  | read _ => exact atKey trivial
  | write _ _ => exact atKey trivial
  | registerExtension _ _ => exact atKey trivial
  | extension _ => exact atKey trivial
  | _ => cases named

variable {base : Place} {trace : Trace Unit} {w after : World}

def unseen (_ : Host) : Unit :=
  ()

/-- The action does not reach into the reserved directory from outside: it registers no hook above the
directory, and it loads no file whose canonical path leads into it. -/
def StaysOutside (s : Store) (action : Action) (answer : Except Raised Answer) (w : World) : Prop :=
  action.IsDirect ∧
  (∀ path given key, action = .registerExtension path given → answer = .ok .nothing →
    s.ownKey path = .ok key → key ∉ Key.parents reserved) ∧
  ∀ path feature, action = .require path → action.isReserved s = false →
    answer = .ok (.outcome .loaded) → (s.featureOf path w).1 = .ok feature →
      Key.isUnder reserved feature = false

theorem reserved_shadows (base : Place) (cwd nativeCwd : Text) :
    Shadows base (.hybrid cwd nativeCwd) (.memory .posix cwd) unseen
      (StaysOutside (.hybrid cwd nativeCwd)) (·.isReserved (.hybrid cwd nativeCwd)) Mirrors where
  sees _ := rfl
  kept keeps run copy scripts := reserved_mirrors base keeps run copy scripts
  dropped := by
    rintro action answer w leaves ⟨direct, hooks, features⟩
    refine hybrid_changes direct ?_ ?_ ?_ ?_
    · intro ended st same other mirrors
      exact mirrors
    · intro changes ended tables host later same other mirrors
      exact ⟨mirrors.sources, mirrors.directories, mirrors.hooks, mirrors.features⟩
    · rintro i key rfl resolved made ended other mirrors
      have away : ¬key.IsReserved := by
        rw [← Insertion.isReserved_action resolved, leaves]
        exact Bool.false_ne_true
      obtain ⟨native, outside⟩ := Store.serves_outside resolved away
      simp only [made, native] at ended ⊢
      refine mirrors.insert_outside outside ?_
      rintro path given rfl done
      rw [done] at ended
      exact hooks path given key rfl ended.symm resolved
    · rintro path feature st rfl named ended other mirrors
      exact mirrors.mark_outside (features path feature rfl leaves ended.symm named)

/-- Operations in the reserved directory answer as on a memory store that gets no others. -/
theorem reserved_as_memory
    (happens : Happens base (.hybrid cwd nativeCwd) unseen (StaysOutside (.hybrid cwd nativeCwd))
      trace w.fresh after) (v : World) :
    ∃ last, Happens base (.memory .posix cwd) unseen anything
      (trace.only (·.isReserved (.hybrid cwd nativeCwd))) v.fresh last := by
  obtain ⟨last, remains, _⟩ := (reserved_shadows base cwd nativeCwd).happens happens (.fresh w v)
  exact ⟨last, remains⟩

/-- A hook outside whose script writes a source into the directory, which is there afterwards. -/
theorem script_writes_inside :
    let s := Store.hybrid Flavor.posix.loadRoot ("/" : Text)
    let source : GivenPath := .text ("a.rb" : Text)
    let outside : GivenPath := .text ("/x.rb" : Text)
    let hook : GivenHook := .hook ⟨("h" : Text), none, none⟩
    let inside : Trace Unit := .made (.write source (.bytes [])) (.ok .nothing) () .done
    let asked : Trace Unit := .made (.contains source) (.ok (.flag true)) () .done
    let trace : Trace Unit :=
      .made (.registerExtension outside hook) (.ok .nothing) () <|
        .ran (.require outside) inside (.ok ()) (.ok (.outcome .loaded)) () asked
    (∃ after, Happens [] s unseen (StaysOutside s) trace (World.fresh {}) after) ∧
      ∃ last, Happens [] (.memory .posix Flavor.posix.loadRoot) unseen anything
        (inside.append asked) (World.fresh {}) last := by
  intro s source outside hook inside asked trace
  let idle : ScriptRunner := fun _ => pure ()
  let hooked := (act idle [] s (.registerExtension outside hook) (World.fresh {})).2
  let written := (act idle [] s (.write source (.bytes [])) hooked).2
  let required := (act (fun _ => Act.landing (.ok ()) written) [] s (.require outside) hooked).2
  let shown := (act idle [] s (.contains source) required).2
  have asks : Happens [] s unseen (StaysOutside s) asked required shown :=
    .next (fun _ _ => rfl) ⟨trivial, nofun, nofun⟩ (by decide +kernel) rfl (.done rfl)
  have writes : Happens [] s unseen (StaysOutside s) inside hooked written :=
    .next (fun _ _ => rfl) ⟨trivial, nofun, nofun⟩ (by decide +kernel) rfl (.done rfl)
  have requires : Happens [] s unseen (StaysOutside s)
      (.ran (.require outside) inside (.ok ()) (.ok (.outcome .loaded)) () asked) hooked shown := by
    refine .ran rfl ⟨trivial, nofun, ?_⟩ ?_ writes (Prod.ext (by decide +kernel) rfl) asks
    · rintro path feature same _ _ named
      cases same
      have found : (s.featureOf outside hooked).1 = .ok (Bytes.ofString "/x.rb") := by decide +kernel
      cases found.symm.trans named
      decide
    · exact ⟨.ok (), .error (.mishap .noSuchOperation), by decide +kernel⟩
  have happens : Happens [] s unseen (StaysOutside s) trace (World.fresh {}) shown := by
    refine .next (fun _ _ => rfl) ⟨trivial, ?_, nofun⟩ (by decide +kernel) rfl requires
    rintro path given key same _ resolved
    cases same
    have found : s.ownKey outside = .ok (Bytes.ofString "/x.rb") := by decide +kernel
    cases found.symm.trans resolved
    decide
  obtain ⟨last, remains⟩ := reserved_as_memory happens {}
  have kept : trace.only (·.isReserved s) = inside.append asked := by
    have registers : (Action.registerExtension outside hook).isReserved s = false := by decide +kernel
    have requires : (Action.require outside).isReserved s = false := by decide +kernel
    have writes : (Action.write source (.bytes [])).isReserved s = true := by decide +kernel
    have shows : (Action.contains source).isReserved s = true := by decide +kernel
    simp only [trace, inside, asked, Trace.only, registers, requires, writes, shows, if_true,
      Bool.false_eq_true, if_false]
  rw [kept] at remains
  exact ⟨⟨_, happens⟩, last, remains⟩

/-- A hook above the directory keeps sources out of it. A file outside whose canonical path leads
into it is required there, too. -/
theorem outside_reaches_inside :
    let hybrid : Setup := ⟨.hybrid Flavor.posix.loadRoot ("/" : Text), [], []⟩
    let memory : Setup := ⟨.memory .posix Flavor.posix.loadRoot, [], []⟩
    let source : GivenPath := .text ("a.rb" : Text)
    let hook : GivenHook := .hook ⟨("h" : Text), none, none⟩
    let key := Bytes.ofString "/artichoke/virtual_root/src/lib/a.rb"
    let answers (setup : Setup) (steps : List Action) :=
      (run setup (steps.map (⟨.whole, ·⟩)) (World.fresh {})).1.map StepReport.result
    (answers hybrid [.registerExtension (.text ("/artichoke" : Text)) hook, .write source (.bytes [])] =
        [.ok .nothing, .error (.fault (.parentNotDirectory (Bytes.ofString "/artichoke") key))] ∧
      answers memory [.write source (.bytes [])] = [.ok .nothing]) ∧
    answers hybrid [.hostLink ("x.rb" : Text) ("/artichoke/virtual_root/src/lib/a.rb" : Text),
        .registerExtension (.text ("/x.rb" : Text)) hook, .require (.text ("/x.rb" : Text)),
        .isRequired source] = [.ok .nothing, .ok .nothing, .ok (.outcome .loaded), .ok (.flag true)] ∧
      answers memory [.isRequired source] = [.ok (.flag false)] := by
  decide +kernel

end Session

end Loadable
