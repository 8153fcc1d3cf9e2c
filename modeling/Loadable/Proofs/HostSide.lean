import Loadable.Proofs.Sides
/-!
Outside its reserved directory a hybrid store works on the host as a native store does that gets only
what is asked there, and neither side touches what is the other's.
-/
namespace Loadable

deriving instance DecidableEq for Host

def Action.isHostSide (s : Store) (action : Action) : Bool :=
  match action with
  | contains _ | isDirectory _ | read _ | write _ _ | registerExtension _ _ | extension _ =>
    action.isOutside s
  | hostWrite _ _ | hostMakeDirectories _ | hostRemove _ | hostLink _ _ | hostChangeDirectory _
  | hostChangeMode _ _ => true
  | _ => false

theorem Action.isHostSide_cases {s : Store} {action : Action} (keeps : action.isHostSide s = true) :
    action.ChangesHost ∨ (action.IsAtKey ∧ action.isOutside s = true) := by
  cases action with
  | contains _ => exact .inr ⟨trivial, keeps⟩
  | isDirectory _ => exact .inr ⟨trivial, keeps⟩
  | read _ => exact .inr ⟨trivial, keeps⟩
  | write _ _ => exact .inr ⟨trivial, keeps⟩
  | registerExtension _ _ => exact .inr ⟨trivial, keeps⟩
  | extension _ => exact .inr ⟨trivial, keeps⟩
  | hostWrite _ _ => exact .inl trivial
  | hostMakeDirectories _ => exact .inl trivial
  | hostRemove _ => exact .inl trivial
  | hostLink _ _ => exact .inl trivial
  | hostChangeDirectory _ => exact .inl trivial
  | hostChangeMode _ _ => exact .inl trivial
  | _ => cases keeps

theorem Action.isHostSide_of_changes {s : Store} {action : Action} (changes : action.ChangesHost) :
    action.isHostSide s = true := by
  cases action with
  | hostWrite _ _ => rfl
  | hostMakeDirectories _ => rfl
  | hostRemove _ => rfl
  | hostLink _ _ => rfl
  | hostChangeDirectory _ => rfl
  | hostChangeMode _ _ => rfl
  | _ => exact changes.elim

theorem Action.isHostSide_insertion {s : Store} (i : Insertion) :
    i.action.isHostSide s = i.action.isOutside s := by
  cases i <;> rfl

/-- The same host, and the same hooks outside the reserved directory. -/
structure SharesHost (st other : Stored) : Prop where
  host : st.host = other.host
  hooks : ∀ {key}, Key.isUnder reserved key = false →
    st.tables.hooks.get? key = other.tables.hooks.get? key

theorem Tables.insert_hooks (t : Tables) {key place : Key} (i : Insertion) (different : place ≠ key) :
    (t.insert key i).2.hooks.get? place = t.hooks.get? place :=
  congrArg Prod.snd (insert_slots_elsewhere i different)

namespace SharesHost

variable {st other : Stored} {key : Key}

theorem insert (shares : SharesHost st other) (key : Key) (i : Insertion) :
    (st.insert key .native i).1 = (other.insert key .native i).1 ∧
      SharesHost (st.insert key .native i).2 (other.insert key .native i).2 := by
  cases i with
  | write path data =>
    cases data with
    | unusable typeName => exact ⟨rfl, shares⟩
    | bytes data =>
      simp only [Stored.insert, GivenData.asBytes, shares.host]
      cases other.host.writeKey key data with
      | mk result host =>
        cases result with
        | error raised => exact ⟨rfl, rfl, shares.hooks⟩
        | ok =>
          refine ⟨rfl, rfl, fun outside => ?_⟩
          rw [KeyMap.get?_erase, KeyMap.get?_erase, shares.hooks outside]
  | register path given =>
    cases given with
    | uncallable typeName => exact ⟨rfl, shares⟩
    | hook hook =>
      refine ⟨rfl, shares.host, fun outside => ?_⟩
      change (st.tables.hooks.insert key hook).get? _ = (other.tables.hooks.insert key hook).get? _
      rw [KeyMap.get?_insert, KeyMap.get?_insert, shares.hooks outside]

theorem insert_inside (shares : SharesHost st other) (under : Key.isUnder reserved key = true)
    (i : Insertion) : SharesHost (st.insert key .memory i).2 other where
  host := shares.host
  hooks := by
    intro place outside
    have different : place ≠ key := (ne_of_isUnder under outside).symm
    exact (st.tables.insert_hooks i different).trans (shares.hooks outside)

end SharesHost

open Act (Agree)

variable {cwd nativeCwd : Text} {key : Key}

theorem answers_shares (outside : Key.isUnder reserved key = false) :
    Side.native.Answers SharesHost cwd key where
  contains := by
    refine .world fun u z shares => ?_
    have same : u.host = z.host := shares.host
    have hooked : u.tables.hooks.get? key = z.tables.hooks.get? key := shares.hooks outside
    rw [same, KeyMap.contains, KeyMap.contains, hooked]
    exact .of (.ok _)
  isDirectory := by
    refine .world fun u z shares => ?_
    have same : u.host = z.host := shares.host
    rw [same]
    exact .of (.ok _)
  read := by
    refine .world fun u z shares => ?_
    have same : u.host = z.host := shares.host
    rw [same]
    exact .of _
  hook shares := shares.hooks outside
  inserts i _ _ shares := shares.insert key i

namespace Session

variable {base : Place} {action : Action}

theorem changeHost_shares (change : HostChange Unit) :
    Agree SharesHost (changeHost change) (changeHost change) := by
  refine .bind ?_ fun _ => .of (.ok _)
  intro w v shares
  have same : w.host = v.host := shares.host
  simp only [Act.onHost, same]
  exact ⟨trivial, rfl, shares.hooks⟩

theorem hostBytes_shares (path : Text) : Agree SharesHost (hostBytes path) (hostBytes path) := by
  unfold hostBytes
  cases path.encode with
  | ok bytes => exact .of (.ok bytes)
  | error stretch => exact .of (.error _)

theorem changesHost_shares (base : Place) (s shadow : Store) (changes : action.ChangesHost)
    (run copy : ScriptRunner) :
    Agree SharesHost (act run base s action) (act copy base shadow action) := by
  have below {change : Bytes → HostChange Unit} (file : Text) :
      Agree SharesHost (do changeHost (change (← below base file)))
        (do changeHost (change (← below base file))) :=
    .bind (hostBytes_shares _) fun path => changeHost_shares (change path)
  cases action with
  | hostWrite file data =>
    refine .bind (hostBytes_shares _) fun path => ?_
    cases data with
    | bytes data => exact changeHost_shares _
    | unusable typeName => exact .bind (changeHost_shares _) fun _ => .of (.error _)
  | hostMakeDirectories file => exact below file
  | hostRemove file => exact below file
  | hostLink file target => exact .bind (hostBytes_shares target) fun _ => below file
  | hostChangeDirectory file => exact below file
  | hostChangeMode file mode => exact below file
  | _ => exact changes.elim

/-- What a hybrid store does outside the reserved directory agrees with what a native store does. -/
theorem outside_shares (base : Place) {action : Action}
    (keeps : action.isHostSide (.hybrid cwd nativeCwd) = true) (run copy : ScriptRunner) :
    Agree SharesHost (act run base (.hybrid cwd nativeCwd) action)
      (act copy base (Side.native.store cwd) action) := by
  rcases Action.isHostSide_cases keeps with changes | ⟨atKey, away⟩
  · exact changesHost_shares base _ _ changes run copy
  · obtain ⟨path, key, named, resolved, outside⟩ := Action.isOutside_iff.1 away
    obtain ⟨serves, unreserved⟩ := Store.serves_outside resolved outside
    exact (answers_shares unreserved).act_agree serves resolved named atKey run copy

theorem isDirect_of_path {action : Action} {path : GivenPath} (named : action.path? = some path) :
    action.IsDirect := by
  cases action with
  | requireName _ => cases named
  | loadName _ => cases named
  | requireRelative _ => cases named
  | evaluate _ _ => cases named
  | preloadSource _ _ => cases named
  | preloadHook _ _ => cases named
  | _ => trivial

theorem not_changesHost_of_path {action : Action} {path : GivenPath}
    (named : action.path? = some path) : ¬action.ChangesHost := by
  cases action with
  | hostWrite _ _ => cases named
  | hostMakeDirectories _ => cases named
  | hostRemove _ => cases named
  | hostLink _ _ => cases named
  | hostChangeDirectory _ => cases named
  | hostChangeMode _ _ => cases named
  | _ => exact id

theorem insert_native_sources (st : Stored) (key : Key) (i : Insertion) :
    (st.insert key .native i).2.tables.sources = st.tables.sources ∧
      (st.insert key .native i).2.tables.directories = st.tables.directories := by
  cases i with
  | write path data =>
    cases data with
    | unusable typeName => exact ⟨rfl, rfl⟩
    | bytes data =>
      simp only [Stored.insert, GivenData.asBytes]
      cases st.host.writeKey key data with
      | mk result host => cases result <;> exact ⟨rfl, rfl⟩
  | register path given => cases given <;> exact ⟨rfl, rfl⟩

theorem host_shadows (base : Place) (cwd nativeCwd : Text) :
    Shadows base (.hybrid cwd nativeCwd) (Side.native.store cwd) id
      (fun action _ _ => action.IsDirect) (·.isHostSide (.hybrid cwd nativeCwd)) SharesHost where
  sees shares := shares.host
  kept keeps run copy _ := outside_shares base keeps run copy
  dropped := by
    intro action answer w leaves direct
    refine hybrid_changes direct ?_ ?_ ?_ ?_
    · intro ended st same other shares
      exact shares
    · intro changes
      rw [Action.isHostSide_of_changes changes] at leaves
      cases leaves
    · rintro i key rfl resolved made ended other shares
      have inside : key.IsReserved := by
        by_contra outside
        rw [Action.isHostSide_insertion, (Insertion.isOutside_action resolved).2 outside] at leaves
        cases leaves
      obtain ⟨memory, under⟩ := Store.serves_reserved resolved inside
      simp only [made, memory]
      exact shares.insert_inside under i
    · rintro path feature st rfl named ended other shares
      exact ⟨shares.host, shares.hooks⟩

/-- Outside the reserved directory a hybrid store answers and changes the host as a native store that
gets no other operations. Operations in the directory leave the host, and those outside leave the
sources and the directories in memory. -/
theorem outside_as_native (base : Place) (cwd nativeCwd : Text) :
    (∀ (trace : Trace Host) (w after : World), Happens base (.hybrid cwd nativeCwd) id
        (fun action _ _ => action.IsDirect) trace w.fresh after → ∀ v : World, v.host = w.host →
      ∃ last, Happens base ⟨.posix, cwd, .native⟩ id anything
        (trace.only (·.isHostSide (.hybrid cwd nativeCwd))) v.fresh last ∧ last.host = after.host) ∧
    (∀ action w, action.isReserved (.hybrid cwd nativeCwd) = true →
      Act.Changes (fun _ before after => after.host = before.host)
        (fun run => act run base (.hybrid cwd nativeCwd) action) w) ∧
    ∀ action w, action.isOutside (.hybrid cwd nativeCwd) = true →
      Act.Changes (fun _ before after => after.tables.sources = before.tables.sources ∧
        after.tables.directories = before.tables.directories)
        (fun run => act run base (.hybrid cwd nativeCwd) action) w := by
  refine ⟨?_, ?_, ?_⟩
  · intro trace w after happens v same
    have start : SharesHost w.fresh.stored v.fresh.stored := ⟨same.symm, fun _ => rfl⟩
    obtain ⟨last, remains, ends⟩ := (host_shadows base cwd nativeCwd).happens happens start
    exact ⟨last, remains, ends.host.symm⟩
  · intro action w keeps
    obtain ⟨path, _, named, _⟩ := Action.isReserved_iff.1 keeps
    refine hybrid_changes (isDirect_of_path named) (fun _ _ => rfl)
      (fun changes => absurd changes (not_changesHost_of_path named)) ?_ fun _ _ _ _ _ => rfl
    rintro i key rfl resolved
    obtain ⟨memory, _⟩ :=
      Store.serves_reserved resolved ((Insertion.isReserved_action resolved).1 keeps)
    rw [memory]
    rfl
  · intro action w keeps
    obtain ⟨path, _, named, _⟩ := Action.isOutside_iff.1 keeps
    refine hybrid_changes (isDirect_of_path named) (fun _ _ => ⟨rfl, rfl⟩)
      (fun changes => absurd changes (not_changesHost_of_path named)) ?_ fun _ _ _ _ _ => ⟨rfl, rfl⟩
    rintro i key rfl resolved
    obtain ⟨native, _⟩ :=
      Store.serves_outside resolved ((Insertion.isOutside_action resolved).1 keeps)
    rw [native]
    exact insert_native_sources _ _ _

/-- A file written outside is the same on either store, whatever is written into the directory. -/
theorem file_written_outside :
    let s := Store.hybrid Flavor.posix.loadRoot ("/" : Text)
    let inside : Action := .write (.text ("a.rb" : Text)) (.bytes [])
    let file : GivenPath := .text ("/x.rb" : Text)
    let data := Bytes.ofString "x = 1"
    let host : Host := { nodes := [([Bytes.ofString "x.rb"], .file data 0o644)] }
    let outside : Trace Host := .made (.write file (.bytes data)) (.ok .nothing) host <|
      .made (.read file) (.ok (.bytes data)) host .done
    (∃ after, Happens [] s id (fun action _ _ => action.IsDirect)
        (.made inside (.ok .nothing) {} outside) (World.fresh {}) after) ∧
      ∃ last, Happens [] ⟨.posix, Flavor.posix.loadRoot, .native⟩ id anything outside
        (World.fresh {}) last ∧ last.host = host := by
  intro s inside file data host outside
  let idle : ScriptRunner := fun _ => pure ()
  let stored := (act idle [] s inside (World.fresh {})).2
  let written := (act idle [] s (.write file (.bytes data)) stored).2
  let shown := (act idle [] s (.read file) written).2
  have happens : Happens [] s id (fun action _ _ => action.IsDirect)
      (.made inside (.ok .nothing) {} outside) (World.fresh {}) shown :=
    .next (fun _ _ => rfl) trivial (by decide +kernel) (by decide +kernel) <|
      .next (fun _ _ => rfl) trivial (by decide +kernel) (by decide +kernel) <|
        .next (fun _ _ => rfl) trivial (by decide +kernel) (by decide +kernel) (.done rfl)
  obtain ⟨last, remains, ends⟩ :=
    (outside_as_native [] Flavor.posix.loadRoot ("/" : Text)).1 _ _ _ happens {} rfl
  have kept :
      (Trace.made inside (.ok .nothing) ({} : Host) outside).only (·.isHostSide s) = outside := by
    have away : inside.isHostSide s = false := by decide +kernel
    have writes : (Action.write file (.bytes data)).isHostSide s = true := by decide +kernel
    have reads : (Action.read file).isHostSide s = true := by decide +kernel
    simp only [outside, Trace.only, away, writes, reads, if_true, Bool.false_eq_true, if_false]
  have left : shown.host = host := by decide +kernel
  rw [kept] at remains
  exact ⟨⟨_, happens⟩, last, remains, ends.trans left⟩

end Session

end Loadable
