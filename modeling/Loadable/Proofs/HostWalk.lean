import Loadable.Host.Replace
/-!
Where walks lead, step by step: what is found at the end of a walk stands there. And what becomes of the
directories when something is put into them or taken from them.
-/
namespace Loadable

namespace Place

theorem isLost_append (place rest : Place) :
    Place.isLost (place ++ rest) = (Place.isLost place || Place.isLost rest) :=
  List.any_append

theorem isLost_of_above {above place : Place} (before : above <+: place)
    (lost : above.isLost = true) : place.isLost = true := by
  obtain ⟨rest, rfl⟩ := before
  rw [isLost_append, lost, Bool.true_or]

end Place

namespace Host

variable {host after : Host} {place other : Place} {node : Node}

theorem node?_root (host : Host) : host.node? [] = some (.directory 0o755) :=
  if_pos rfl

theorem find?_other (nodes : List (Place × Node)) (place other : Place) :
    (nodes.filter (·.1 ≠ place)).find? (·.1 = other) =
      if other = place then none else nodes.find? (·.1 = other) := by
  rw [List.find?_filter]
  by_cases same : other = place
  · rw [if_pos same, List.find?_eq_none]
    intro entry _
    simp [same]
  · rw [if_neg same]
    congr 1
    funext entry
    by_cases found : entry.1 = other <;> simp [found, same]

/-- Nothing is put into the root's own place, or into that of a removed directory. -/
theorem node?_put (host : Host) (place : Place) (node : Node) (other : Place) :
    (host.put place node).node? other =
      if other = [] ∨ other.isLost = true then host.node? other
      else if other = place then some node else host.node? other := by
  unfold node?
  by_cases root : other = []
  · simp [root]
  cases lost : other.isLost with
  | true => simp [root, put]
  | false =>
    simp only [root, put, if_false, Bool.false_eq_true, or_self, List.find?_append, find?_other]
    by_cases same : other = place
    · simp [same]
    · simp [same, Ne.symm same]

theorem node?_erase (host : Host) (place other : Place) :
    (host.erase place).node? other =
      if other = [] ∨ other.isLost = true then host.node? other
      else if other = place then none else host.node? other := by
  unfold node?
  by_cases root : other = []
  · simp [root]
  cases lost : other.isLost with
  | true => simp [root, erase]
  | false =>
    simp only [root, erase, if_false, Bool.false_eq_true, or_self, find?_other]
    by_cases same : other = place
    · simp [same]
    · simp [same]

def IsDirectoryAt (host : Host) (place : Place) : Prop :=
  ∃ mode, host.node? place = some (.directory mode)

instance (host : Host) (place : Place) : Decidable (host.IsDirectoryAt place) :=
  match found : host.node? place with
  | some (.directory mode) => isTrue ⟨mode, found⟩
  | some (.file _ _) | some (.link _) | none => isFalse fun ⟨_, here⟩ => by simp [found] at here

theorem node?_put_or (host : Host) (place : Place) (node : Node) (seen : Place) :
    (host.put place node).node? seen = host.node? seen ∨
      seen = place ∧ (host.put place node).node? seen = some node := by
  rw [node?_put]
  split
  · exact .inl rfl
  split
  case isTrue same => exact .inr ⟨same, rfl⟩
  case isFalse => exact .inl rfl

theorem isDirectoryAt_root (host : Host) : host.IsDirectoryAt [] :=
  ⟨_, host.node?_root⟩

end Host

namespace Spot

def Stands (host : Host) : Spot → Prop
  | node place found => host.node? place = some found
  | free place => host.node? place = none

end Spot

namespace Host

variable {host after : Host} {place dir : Place} {node : Node} {spot : Spot} {aim : Aim}
  {names : List Bytes}

def unnamed? (dir : Place) (name : Bytes) : Option Place :=
  if name = [] ∨ name = [dot] then some dir
  else if name = [dot, dot] then some dir.dropLast
  else none

/-- How a walk that succeeds goes on from what stands at its next name. -/
inductive Meets (host : Host) (jump : Place → List Bytes → Except HostFailure Spot) (aim : Aim)
    (dir : Place) (name : Bytes) (rest : List Bytes) : Option Node → Spot → Prop where
  | nothing : Meets host jump aim dir name rest none (.free (dir ++ [name]))
  | directory {mode : Nat} {spot : Spot}
      (goes : host.walkWith jump aim (dir ++ [name]) rest = .ok spot) :
      Meets host jump aim dir name rest (some (.directory mode)) spot
  | file {data : Bytes} {mode : Nat} :
      Meets host jump aim dir name rest (some (.file data mode))
        (.node (dir ++ [name]) (.file data mode))
  | link {target : Bytes} (entry : aim = .entry) :
      Meets host jump aim dir name rest (some (.link target)) (.node (dir ++ [name]) (.link target))
  | follows {target : Bytes} {spot : Spot}
      (goes : jump (walkStart dir target) (pathNames target ++ rest) = .ok spot) :
      Meets host jump aim dir name rest (some (.link target)) spot

section Step

variable {jump : Place → List Bytes → Except HostFailure Spot} {name : Bytes} {rest : List Bytes}

theorem walkWith_nil (found : host.walkWith jump aim dir [] = .ok spot) :
    ∃ node, host.node? dir = some node ∧ spot = .node dir node := by
  rw [walkWith] at found
  split at found
  case h_1 node here =>
    cases found
    exact ⟨node, here, rfl⟩
  case h_2 => cases found

def lookUp (host : Host) (jump : Place → List Bytes → Except HostFailure Spot) (aim : Aim)
    (dir : Place) (name : Bytes) (rest : List Bytes) : Except HostFailure Spot :=
  if aim = .creation ∧ rest = [[]] then .error .isDirectory
  else if nameLimit < name.length then .error .nameTooLong
  else match host.node? (dir ++ [name]) with
    | none => if rest = [] then .ok (.free (dir ++ [name])) else .error .absent
    | some (.directory _) => host.walkWith jump aim (dir ++ [name]) rest
    | some (.file data mode) =>
      if rest = [] then .ok (.node (dir ++ [name]) (.file data mode)) else .error .notDirectory
    | some (.link target) =>
      if rest = [] ∧ aim = .entry then .ok (.node (dir ++ [name]) (.link target))
      else jump (walkStart dir target) (pathNames target ++ rest)

/-- One step of a walk. -/
theorem walkWith_cons (host : Host) (jump : Place → List Bytes → Except HostFailure Spot) (aim : Aim)
    (dir : Place) (name : Bytes) (rest : List Bytes) :
    host.walkWith jump aim dir (name :: rest) =
      if name ≠ [] ∧ host.permits .enter dir = false then .error .denied
      else match unnamed? dir name with
        | some next => host.walkWith jump aim next rest
        | none => host.lookUp jump aim dir name rest := by
  rw [walkWith]
  by_cases empty : name = []
  · simp [empty, unnamed?]
  cases permitted : host.permits .enter dir with
  | false => simp [empty]
  | true =>
    by_cases here : name = [dot]
    · simp [here, unnamed?]
    by_cases up : name = [dot, dot]
    · simp [up, unnamed?]
    · have other : unnamed? dir name = none := by simp [unnamed?, empty, here, up]
      have free : ¬(name ≠ [] ∧ true = false) := by simp
      rw [other, if_neg free, if_neg empty, if_neg (by simp), if_neg here, if_neg up]
      rfl

theorem walkWith_unnamed {next : Place} (leads : unnamed? dir name = some next)
    (found : host.walkWith jump aim dir (name :: rest) = .ok spot) :
    host.walkWith jump aim next rest = .ok spot := by
  rw [walkWith_cons] at found
  split at found
  · cases found
  · rwa [leads] at found

theorem walkWith_named (named : unnamed? dir name = none)
    (found : host.walkWith jump aim dir (name :: rest) = .ok spot) :
    Meets host jump aim dir name rest (host.node? (dir ++ [name])) spot := by
  rw [walkWith_cons] at found
  split at found
  · cases found
  rw [named] at found
  simp only [lookUp] at found
  split at found
  · cases found
  split at found
  · cases found
  cases there : host.node? (dir ++ [name]) with
  | none =>
    simp only [there] at found
    split at found
    · cases found
      exact .nothing
    · cases found
  | some node =>
    simp only [there] at found
    cases node with
    | directory mode => exact .directory found
    | file data mode =>
      simp only at found
      split at found
      · cases found
        exact .file
      · cases found
    | link target =>
      simp only at found
      split at found
      case isTrue last =>
        cases found
        exact .link last.2
      case isFalse => exact .follows found

end Step

theorem walkWith_stands {jump : Place → List Bytes → Except HostFailure Spot}
    (jumps : ∀ {dir names spot}, jump dir names = .ok spot → spot.Stands host)
    (found : host.walkWith jump aim dir names = .ok spot) : spot.Stands host := by
  induction names generalizing dir with
  | nil =>
    obtain ⟨node, here, rfl⟩ := walkWith_nil found
    exact here
  | cons name rest ih =>
    cases leads : unnamed? dir name with
    | some next => exact ih (walkWith_unnamed leads found)
    | none =>
      have meets := walkWith_named leads found
      cases there : host.node? (dir ++ [name]) with
      | none =>
        rw [there] at meets
        cases meets with
        | nothing => exact there
      | some node =>
        rw [there] at meets
        cases meets with
        | directory goes => exact ih goes
        | file => exact there
        | link entry => exact there
        | follows goes => exact jumps goes

theorem walk_stands {links : Nat} (found : host.walk aim links dir names = .ok spot) :
    spot.Stands host := by
  induction links generalizing dir names spot with
  | zero =>
    refine walkWith_stands (fun gone => ?_) found
    cases gone
  | succ links ih => exact walkWith_stands ih found

theorem locate_stands {path : Bytes} (found : host.locate aim path = .ok spot) : spot.Stands host := by
  unfold locate at found
  split at found
  · cases found
  split at found
  · cases found
  · exact walk_stands found

theorem stat_ok {path : Bytes} :
    host.stat path = .ok (place, node) ↔ host.locate .target path = .ok (.node place node) := by
  unfold stat
  cases host.locate .target path with
  | error failure => simp
  | ok spot => cases spot <;> simp

theorem stat_stands {path : Bytes} (found : host.stat path = .ok (place, node)) :
    host.node? place = some node :=
  locate_stands (stat_ok.1 found)

structure Alike (host after : Host) : Prop where
  cwd : after.cwd = host.cwd
  directory : ∀ place, after.IsDirectoryAt place ↔ host.IsDirectoryAt place
  link : ∀ place target,
    after.node? place = some (.link target) ↔ host.node? place = some (.link target)

theorem isDirectoryAt_put_other (undirected : ¬host.IsDirectoryAt place)
    (other : ∀ mode, node ≠ .directory mode) (seen : Place) :
    (host.put place node).IsDirectoryAt seen ↔ host.IsDirectoryAt seen := by
  unfold IsDirectoryAt at *
  rcases host.node?_put_or place node seen with same | ⟨rfl, put⟩
  · rw [same]
  · rw [put]
    refine ⟨?_, fun here => absurd here undirected⟩
    rintro ⟨mode, same⟩
    exact absurd (Option.some.inj same) (other mode)

theorem isDirectoryAt_erase_other (undirected : ¬host.IsDirectoryAt place) (seen : Place) :
    (host.erase place).IsDirectoryAt seen ↔ host.IsDirectoryAt seen := by
  unfold IsDirectoryAt at *
  rw [node?_erase]
  split
  · exact Iff.rfl
  split
  case isTrue same =>
    subst same
    exact ⟨nofun, fun here => absurd here undirected⟩
  case isFalse => exact Iff.rfl

theorem isDirectoryAt_put_directory (directory : host.IsDirectoryAt place) (mode : Nat)
    (seen : Place) :
    (host.put place (.directory mode)).IsDirectoryAt seen ↔ host.IsDirectoryAt seen := by
  unfold IsDirectoryAt at *
  rcases host.node?_put_or place (.directory mode) seen with same | ⟨rfl, put⟩
  · rw [same]
  · rw [put]
    exact ⟨fun _ => directory, fun _ => ⟨mode, rfl⟩⟩

theorem alike_put_file
    (free : host.node? place = none ∨ ∃ old before, host.node? place = some (.file old before))
    (data : Bytes) (mode : Nat) : host.Alike (host.put place (.file data mode)) where
  cwd := rfl
  directory := by
    refine isDirectoryAt_put_other ?_ fun _ => nofun
    rintro ⟨_, here⟩
    rw [here] at free
    rcases free with gone | ⟨_, _, same⟩
    · cases gone
    · cases same
  link seen target := by
    rcases host.node?_put_or place (.file data mode) seen with same | ⟨rfl, put⟩
    · rw [same]
    · rw [put]
      refine ⟨nofun, fun here => ?_⟩
      rw [here] at free
      rcases free with gone | ⟨_, _, same⟩
      · cases gone
      · cases same

theorem alike_put_directory (directory : host.IsDirectoryAt place) (mode : Nat) :
    host.Alike (host.put place (.directory mode)) where
  cwd := rfl
  directory := isDirectoryAt_put_directory directory mode
  link seen target := by
    rcases host.node?_put_or place (.directory mode) seen with same | ⟨rfl, put⟩
    · rw [same]
    · obtain ⟨before, here⟩ := directory
      rw [put, here]
      exact ⟨nofun, nofun⟩

end Host

end Loadable
