import Loadable.Host.Layout
import Loadable.Proofs.Evolution
import Loadable.Proofs.HostTree
import Loadable.Proofs.Replacing
/-!
The host stays a tree, whatever a session does to it. Each request keeps it one, so that it does not
matter how far a change of several requests gets.
-/
namespace Loadable

namespace Host

open HostFailure (bind_ok check_ok)

variable {host after : Host} {path : Bytes}

theorem writeFile_alike {data : Bytes} (done : host.writeFile path data = .ok after) :
    host.Alike after := by
  obtain ⟨spot, located, done⟩ := bind_ok done
  have stands := locate_stands located
  cases spot with
  | node place node =>
    cases node with
    | file old mode =>
      simp only at done
      split at done
      · cases done
        exact alike_put_file (.inr ⟨old, mode, stands⟩) _ _
      · cases done
    | directory mode => cases done
    | link target => cases done
  | free place =>
    obtain ⟨_, _, done⟩ := bind_ok done
    cases done
    exact alike_put_file (.inl stands) _ _

theorem changeMode_alike {mode : Nat} (done : host.changeMode path mode = .ok after) :
    host.Alike after := by
  obtain ⟨⟨place, node⟩, found, done⟩ := bind_ok done
  have stands := stat_stands found
  cases node with
  | file data before =>
    cases done
    exact alike_put_file (.inr ⟨data, before, stands⟩) _ _
  | directory before =>
    cases done
    exact alike_put_directory ⟨before, stands⟩ _
  | link target => cases done

theorem symlink_isTree {target : Bytes} (done : host.symlink path target = .ok after)
    (tree : host.IsTree) : after.IsTree := by
  unfold symlink at done
  obtain ⟨_, done⟩ := check_ok done
  obtain ⟨_, done⟩ := check_ok done
  obtain ⟨place, _, done⟩ := bind_ok done
  obtain ⟨free, done⟩ := check_ok done
  obtain ⟨_, done⟩ := check_ok done
  obtain ⟨_, _, done⟩ := bind_ok done
  cases done
  refine tree.of_same rfl (isDirectoryAt_put_other ?_ fun _ => nofun)
  rintro ⟨_, here⟩
  simp [here] at free

theorem unlink_isTree (done : host.unlink path = .ok after) (tree : host.IsTree) :
    after.IsTree := by
  obtain ⟨place, found, done⟩ := bind_ok done
  cases stands : host.node? place with
  | none =>
    rw [stands] at done
    cases done
  | some node =>
    rw [stands] at done
    obtain ⟨_, done⟩ := check_ok done
    obtain ⟨_, _, done⟩ := bind_ok done
    obtain ⟨undirected, done⟩ := check_ok done
    cases done
    refine tree.of_same rfl (isDirectoryAt_erase_other ?_)
    rintro ⟨mode, here⟩
    rw [stands] at here
    cases here
    simp at undirected

theorem makeDirectory_isTree (done : host.makeDirectory path = .ok after) (tree : host.IsTree) :
    after.IsTree := by
  obtain ⟨place, _, done⟩ := bind_ok done
  obtain ⟨_, done⟩ := check_ok done
  obtain ⟨_, _, done⟩ := bind_ok done
  cases stands : host.node? place.dropLast with
  | none =>
    rw [stands] at done
    cases done
  | some node =>
    rw [stands] at done
    cases node with
    | directory mode =>
      cases done
      exact tree.put_directory ⟨mode, stands⟩ _
    | file data mode => cases done
    | link target => cases done

theorem changeDirectory_isTree (done : host.changeDirectory path = .ok after) (tree : host.IsTree) :
    after.IsTree := by
  obtain ⟨⟨place, node⟩, found, done⟩ := bind_ok done
  cases node with
  | directory mode =>
    simp only at done
    split at done
    · cases done
      exact tree.changeDirectory ⟨mode, stat_stands found⟩
    · cases done
  | file data mode => cases done
  | link target => cases done

theorem removeDirectory_isTree (done : host.removeDirectory path = .ok after) (tree : host.IsTree) :
    after.IsTree := by
  obtain ⟨place, found, done⟩ := bind_ok done
  cases stands : host.node? place with
  | none =>
    rw [stands] at done
    cases done
  | some node =>
    rw [stands] at done
    obtain ⟨_, _, done⟩ := bind_ok done
    obtain ⟨_, done⟩ := check_ok done
    obtain ⟨empty, done⟩ := check_ok done
    cases done
    exact tree.eraseDirectory (not_not.1 empty) (entryPlace_ne_root found)

theorem writeKey_isTree (tree : host.IsTree) (key : Key) (data : Bytes) :
    (host.writeKey key data).2.IsTree := by
  rcases host.writeKey_cases key data with ⟨raised, failed⟩ | ⟨place, bits, done, _, _, undirected, _⟩
  · rwa [failed]
  · rw [done]
    exact tree.of_same rfl (isDirectoryAt_put_other undirected fun _ => nofun)

end Host

namespace HostChange

variable {α β : Type}

theorem run_get (next : Host → HostChange α) (host : Host) :
    (get >>= next : HostChange α).run.run host = (next host).run.run host := rfl

/-- The change leaves a tree, however far it gets. -/
def KeepsTree (change : HostChange α) : Prop :=
  ∀ host : Host, host.IsTree → (change.run.run host).2.IsTree

def Grants (f : Host → Except HostFailure Host) : Prop :=
  ∀ {host after : Host}, f host = .ok after → host.IsTree → after.IsTree

namespace KeepsTree

theorem pure (a : α) : KeepsTree (Pure.pure a) :=
  fun _ tree => tree

theorem throw (mishap : Mishap) : KeepsTree (MonadExcept.throw mishap : HostChange α) :=
  fun _ tree => tree

theorem bind {change : HostChange α} {next : α → HostChange β} (first : KeepsTree change)
    (rest : ∀ a, KeepsTree (next a)) : KeepsTree (change >>= next) := by
  intro host tree
  have left := first host tree
  have goes : (change >>= next).run.run host =
      (ExceptT.bindCont next (change.run.run host).1).run (change.run.run host).2 := rfl
  rw [goes]
  cases (change.run.run host).1 with
  | ok a => exact rest a _ left
  | error mishap => exact left

theorem get {next : Host → HostChange α} (rest : ∀ host, KeepsTree (next host)) :
    KeepsTree (MonadState.get >>= next) :=
  fun host tree => rest host host tree

theorem caught {change : HostChange α} {handler : Mishap → HostChange α} (first : KeepsTree change)
    (rest : ∀ mishap, KeepsTree (handler mishap)) : KeepsTree (tryCatch change handler) := by
  intro host tree
  have left := first host tree
  have goes : ∀ next : Except Mishap α → StateM Host (Except Mishap α),
      (change.run >>= next).run host = (next (change.run.run host).1).run (change.run.run host).2 :=
    fun _ => rfl
  simp only [tryCatch, tryCatchThe, MonadExceptOf.tryCatch, ExceptT.tryCatch]
  refine (congrArg (fun done => done.2.IsTree) (goes _)).mpr ?_
  cases (change.run.run host).1 with
  | ok a => exact left
  | error mishap => exact rest mishap _ left

theorem loop {each : β → PUnit → HostChange (ForInStep PUnit)} (keeps : ∀ b u, KeepsTree (each b u))
    (items : List β) : KeepsTree (forIn items PUnit.unit each) := by
  induction items with
  | nil => exact .pure _
  | cons b items ih =>
    rw [List.forIn_cons]
    refine .bind (keeps b _) fun step => ?_
    cases step with
    | done => exact .pure _
    | yield => exact ih

theorem request {f : Host → Except HostFailure Host} (grants : Grants f) (paths : List Bytes) :
    KeepsTree (HostChange.request paths f) := by
  intro host tree
  unfold HostChange.request
  split
  · exact tree
  · simp only [run_get]
    cases made : f host with
    | ok after => exact grants made tree
    | error failure => exact tree

theorem requestName {f : Host → Bytes → Except HostFailure Host}
    (grants : ∀ path, Grants (f · path)) (dir : Place) (name : Bytes) :
    KeepsTree (HostChange.requestName dir name f) := by
  intro host tree
  unfold HostChange.requestName
  simp only [run_get]
  cases made : f host (Place.path (dir ++ [name])) with
  | ok after => exact grants _ made tree
  | error failure => exact tree

theorem writeFile (path data : Bytes) : KeepsTree (HostChange.writeFile path data) :=
  .request (fun done tree => tree.alike (Host.writeFile_alike done)) _

theorem symlink (path target : Bytes) : KeepsTree (HostChange.symlink path target) :=
  .request Host.symlink_isTree _

theorem changeDirectory (path : Bytes) : KeepsTree (HostChange.changeDirectory path) :=
  .request Host.changeDirectory_isTree _

theorem changeMode (path : Bytes) (mode : Nat) : KeepsTree (HostChange.changeMode path mode) :=
  .request (fun done tree => tree.alike (Host.changeMode_alike done)) _

theorem ensureDirectory (path : Bytes) : KeepsTree (HostChange.ensureDirectory path) := by
  refine .caught (.request Host.makeDirectory_isTree _) fun mishap => ?_
  split
  · refine .get fun host => ?_
    split
    · exact .pure _
    · exact .throw _
  · exact .throw _

theorem unlessOccupied {change : HostChange Unit} (keeps : KeepsTree change) :
    KeepsTree (HostChange.unlessOccupied change) := by
  refine .caught keeps fun mishap => ?_
  split
  · split
    · exact .pure _
    · exact .throw _
  · exact .throw _

theorem makeDirectories (path : Bytes) : KeepsTree (HostChange.makeDirectories path) := by
  unfold HostChange.makeDirectories
  generalize path.length = limit
  induction limit generalizing path with
  | zero => exact ensureDirectory path
  | succ limit ih =>
    rw [makeDirectories.go]
    simp only
    refine .get fun host => ?_
    split
    · refine .bind (unlessOccupied (ih _)) fun _ => ?_
      split
      · exact ensureDirectory path
      · exact .pure _
    · exact ensureDirectory path

theorem openDirectory (place : Place) (shown : Bytes) :
    KeepsTree (HostChange.openDirectory place shown) := by
  refine .get fun host => ?_
  split
  · exact .pure _
  · exact .throw _

theorem clear (depth : Nat) (dir : Place) : KeepsTree (HostChange.clear depth dir) := by
  induction depth generalizing dir with
  | zero => exact .pure _
  | succ depth ih =>
    rw [HostChange.clear]
    refine .get fun host => .bind (.loop (fun name _ => ?_) _) fun _ => .pure _
    refine .get fun host => ?_
    split
    · refine .get fun host => ?_
      split
      · exact .bind (.throw _) fun _ => .bind (openDirectory _ _) fun _ => .bind (ih _) fun _ =>
          .bind (requestName (fun _ => Host.removeDirectory_isTree) _ _) fun _ => .pure _
      · exact .bind (openDirectory _ _) fun _ => .bind (ih _) fun _ =>
          .bind (requestName (fun _ => Host.removeDirectory_isTree) _ _) fun _ => .pure _
    · refine .bind (requestName (fun _ => Host.unlink_isTree) _ _) fun _ => .pure _

theorem removeTree (path : Bytes) : KeepsTree (HostChange.removeTree path) := by
  unfold HostChange.removeTree
  split
  · exact .throw _
  refine .get fun host => ?_
  split
  · exact .bind (openDirectory _ _) fun _ => .bind (clear _ _) fun _ =>
      .request Host.removeDirectory_isTree _
  · exact .request Host.unlink_isTree _

end KeepsTree

end HostChange

namespace Host

theorem Changed.isTree {host after : Host} (changed : host.Changed after) (tree : host.IsTree) :
    after.IsTree := by
  cases changed with
  | writeKey key data => exact writeKey_isTree tree key data
  | writeFile path data => exact HostChange.KeepsTree.writeFile path data host tree
  | makeDirectories path => exact HostChange.KeepsTree.makeDirectories path host tree
  | removeTree path => exact HostChange.KeepsTree.removeTree path host tree
  | symlink path target => exact HostChange.KeepsTree.symlink path target host tree
  | changeDirectory path => exact HostChange.KeepsTree.changeDirectory path host tree
  | changeMode path mode => exact HostChange.KeepsTree.changeMode path mode host tree

theorem isDirectoryAt_of_mem {host : Host} {place : Place} {node : Node}
    (directories : ∀ entry ∈ host.nodes, ∃ mode, entry.2 = .directory mode)
    (kept : place.isLost = false) (listed : (place, node) ∈ host.nodes) :
    host.IsDirectoryAt place := by
  by_cases root : place = []
  · rw [root]
    exact host.isDirectoryAt_root
  obtain ⟨entry, found⟩ : ∃ entry, host.nodes.find? (·.1 = place) = some entry := by
    rw [← Option.isSome_iff_exists, List.find?_isSome]
    exact ⟨_, listed, by simp⟩
  obtain ⟨mode, same⟩ := directories entry (List.mem_of_find?_eq_some found)
  refine ⟨mode, ?_⟩
  rw [node?, if_neg root, if_neg (Bool.eq_false_iff.1 kept), found, Option.map_some, same]

theorem mem_bare {base : DirectoryChain} {entry : Place × Node} (member : entry ∈ (bare base).nodes) :
    ∃ n < base.length, ∃ mode, entry = (base.place.take (n + 1), .directory mode) := by
  obtain ⟨⟨n, name, mode⟩, zipped, rfl⟩ := List.mem_map.1 member
  exact ⟨n, List.mem_range.1 (List.of_mem_zip zipped).1, mode, rfl⟩

theorem bare_listed {base : DirectoryChain} {n : Nat} (within : n < base.length) :
    ∃ node, (base.place.take (n + 1), node) ∈ (bare base).nodes := by
  refine ⟨.directory base[n].2, List.mem_map.2 ⟨(n, base[n]), ?_, rfl⟩⟩
  refine List.mem_iff_getElem.2 ⟨n, by simpa using within, by simp⟩

theorem bare_isTree (base : DirectoryChain) (kept : base.place.isLost = false) :
    (bare base).IsTree := by
  have above : ∀ n ≤ base.length, (bare base).IsDirectoryAt (base.place.take n) := by
    intro n most
    cases n with
    | zero => exact isDirectoryAt_root _
    | succ n =>
      obtain ⟨node, listed⟩ := bare_listed most
      refine isDirectoryAt_of_mem ?_ (not_lost_above (List.take_prefix _ _) kept) listed
      intro entry member
      obtain ⟨_, _, mode, rfl⟩ := mem_bare member
      exact ⟨mode, rfl⟩
  have length : base.place.length = base.length := List.length_map _
  refine isTree_of_listed ?_ kept fun entry member => ?_
  · have whole := above base.length (Nat.le_refl _)
    rwa [← length, List.take_length] at whole
  · obtain ⟨n, within, mode, rfl⟩ := mem_bare member
    have shorter : (base.place.take (n + 1)).dropLast = base.place.take n := by
      rw [List.dropLast_eq_take, List.take_take, List.length_take]
      congr 1
      omega
    change (bare base).IsDirectoryAt (base.place.take (n + 1)).dropLast
    rw [shorter]
    exact above n (Nat.le_of_lt within)

theorem foldl_isTree {β : Type} {lays : Host → β → Host}
    (keeps : ∀ {host : Host} b, host.IsTree → (lays host b).IsTree) (items : List β) {host : Host}
    (tree : host.IsTree) : (items.foldl lays host).IsTree := by
  induction items generalizing host with
  | nil => exact tree
  | cons b items ih => exact ih (keeps b tree)

/-- What is laid out below a directory stands in directories. -/
theorem lay_isTree (base : DirectoryChain) (kept : base.place.isLost = false) (layout : Layout) :
    (lay base layout).IsTree := by
  have below : ∀ {host : Host} {change : HostChange Unit} (path : Bytes), change.KeepsTree →
      host.IsTree → (host.applyBelow path change).IsTree := by
    intro host change path keeps tree
    exact keeps _ (HostChange.KeepsTree.makeDirectories (dirName path) host tree)
  unfold lay
  refine IsTree.of_same (foldl_isTree ?_ _ (foldl_isTree ?_ _ (foldl_isTree ?_ _
    (bare_isTree base kept)))) rfl fun _ => Iff.rfl
  · rintro host ⟨path, target⟩ tree
    exact below _ (.symlink _ _) tree
  · rintro host ⟨path, data⟩ tree
    exact below _ (.writeFile _ _) tree
  · exact fun path tree => HostChange.KeepsTree.makeDirectories _ _ tree

end Host

theorem Evolves.isTree {w after : World} (evolves : Evolves w after) (tree : w.host.IsTree) :
    after.host.IsTree := by
  induction evolves with
  | aside tables host files history started => rwa [host]
  | host changed => exact changed.isTree tree
  | insert inserted => exact tree
  | trans first rest left right => exact right (left tree)
  | source filename data ended body ih => exact ih tree
  | hook key hook ended body ih => exact ih tree
  | load key ended body ih => exact ih tree
  | require feature unknown body ih => exact ih tree
  | requireFailed feature raised unknown body ih => exact ih tree
  | requireAgain feature known => exact tree

end Loadable
