import Loadable.Proofs.HostTree
import Mathlib.Data.List.Basic
/-!
What a walk depends on. One that gets to its end says at each step what it finds on the way, and finds
the same wherever that has not changed.
-/
namespace Loadable

namespace Host

variable {host after : Host} {links : Nat} {dir place next : Place} {node : Node} {name : Bytes}
  {names rest : List Bytes}

structure Enters (host : Host) (dir : Place) (name : Bytes) : Prop where
  named : unnamed? dir name = none
  permitted : host.permits .enter dir = true
  short : name.length ≤ nameLimit

/-- Names lead from a directory to a node, over at most so many links. -/
inductive Leads (host : Host) : Nat → Place → List Bytes → Place → Node → Prop where
  | ends {links : Nat} {dir : Place} {node : Node} (here : host.node? dir = some node) :
      Leads host links dir [] dir node
  | unnamed {links : Nat} {dir next place : Place} {name : Bytes} {rest : List Bytes} {node : Node}
      (leads : unnamed? dir name = some next)
      (permitted : name = [] ∨ host.permits .enter dir = true)
      (goes : Leads host links next rest place node) : Leads host links dir (name :: rest) place node
  | directory {links : Nat} {dir place : Place} {name : Bytes} {rest : List Bytes} {mode : Nat}
      {node : Node} (enters : host.Enters dir name)
      (stands : host.node? (dir ++ [name]) = some (.directory mode))
      (goes : Leads host links (dir ++ [name]) rest place node) :
      Leads host links dir (name :: rest) place node
  | file {links : Nat} {dir : Place} {name data : Bytes} {mode : Nat}
      (enters : host.Enters dir name)
      (stands : host.node? (dir ++ [name]) = some (.file data mode)) :
      Leads host links dir [name] (dir ++ [name]) (.file data mode)
  | link {links : Nat} {dir place : Place} {name target : Bytes} {rest : List Bytes} {node : Node}
      (enters : host.Enters dir name)
      (stands : host.node? (dir ++ [name]) = some (.link target))
      (goes : Leads host links (walkStart dir target) (pathNames target ++ rest) place node) :
      Leads host (links + 1) dir (name :: rest) place node

theorem Enters.nonempty (enters : host.Enters dir name) : name ≠ [] := by
  rintro rfl
  cases enters.named

section Step

variable {jump : Place → List Bytes → Except HostFailure Spot}

theorem walkWith_of_unnamed (leads : unnamed? dir name = some next)
    (permitted : name = [] ∨ host.permits .enter dir = true) (aim : Aim) :
    host.walkWith jump aim dir (name :: rest) = host.walkWith jump aim next rest := by
  rw [walkWith_cons, leads, if_neg]
  rintro ⟨nonempty, denied⟩
  rw [denied] at permitted
  exact permitted.elim nonempty nofun

section Stands

variable (enters : host.Enters dir name)

include enters

theorem walkWith_of_enters : host.walkWith jump .target dir (name :: rest) =
    host.lookUp jump .target dir name rest := by
  rw [walkWith_cons, enters.named, if_neg (by simp [enters.permitted])]

theorem walkWith_directory {mode : Nat}
    (stands : host.node? (dir ++ [name]) = some (.directory mode)) :
    host.walkWith jump .target dir (name :: rest) =
      host.walkWith jump .target (dir ++ [name]) rest := by
  rw [walkWith_of_enters enters, lookUp, if_neg (by simp), if_neg (Nat.not_lt.2 enters.short), stands]

theorem walkWith_file {data : Bytes} {mode : Nat}
    (stands : host.node? (dir ++ [name]) = some (.file data mode)) :
    host.walkWith jump .target dir (name :: rest) =
      if rest = [] then .ok (.node (dir ++ [name]) (.file data mode)) else .error .notDirectory := by
  rw [walkWith_of_enters enters, lookUp, if_neg (by simp), if_neg (Nat.not_lt.2 enters.short), stands]

theorem walkWith_link {target : Bytes}
    (stands : host.node? (dir ++ [name]) = some (.link target)) :
    host.walkWith jump .target dir (name :: rest) =
      jump (walkStart dir target) (pathNames target ++ rest) := by
  rw [walkWith_of_enters enters, lookUp, if_neg (by simp), if_neg (Nat.not_lt.2 enters.short), stands]
  exact if_neg (by simp)

end Stands

theorem enters_of_walkWith {aim : Aim} {spot : Spot}
    (found : host.walkWith jump aim dir (name :: rest) = .ok spot) :
    (∃ next, unnamed? dir name = some next ∧ (name = [] ∨ host.permits .enter dir = true)) ∨
      host.Enters dir name := by
  rw [walkWith_cons] at found
  split at found
  · cases found
  rename_i passes
  have permitted : name = [] ∨ host.permits .enter dir = true := by
    by_cases empty : name = []
    · exact .inl empty
    · exact .inr (by simpa [empty] using passes)
  cases leads : unnamed? dir name with
  | some next => exact .inl ⟨next, rfl, permitted⟩
  | none =>
    simp only [leads, lookUp] at found
    split at found
    · cases found
    split at found
    · cases found
    rename_i short
    refine .inr ⟨leads, permitted.resolve_left ?_, Nat.not_lt.1 short⟩
    rintro rfl
    cases leads

end Step

theorem walkWith_leads {jump : Place → List Bytes → Except HostFailure Spot}
    (jumps : ∀ {dir names}, jump dir names = .ok (.node place node) →
      ∃ fewer, links = fewer + 1 ∧ host.Leads fewer dir names place node)
    (found : host.walkWith jump .target dir names = .ok (.node place node)) :
    host.Leads links dir names place node := by
  induction names generalizing dir with
  | nil =>
    obtain ⟨_, here, same⟩ := walkWith_nil found
    cases same
    exact .ends here
  | cons name rest ih =>
    rcases enters_of_walkWith found with ⟨next, leads, permitted⟩ | enters
    · rw [walkWith_of_unnamed leads permitted] at found
      exact .unnamed leads permitted (ih found)
    · have meets := walkWith_named enters.named found
      cases stands : host.node? (dir ++ [name]) with
      | none =>
        rw [stands] at meets
        cases meets
      | some there =>
        rw [stands] at meets
        cases meets with
        | directory goes => exact .directory enters stands (ih goes)
        | file =>
          rw [walkWith_file enters stands] at found
          by_cases last : rest = []
          · rw [last]
            exact .file enters stands
          · simp [last] at found
        | link entry => cases entry
        | follows goes =>
          obtain ⟨fewer, rfl, leads⟩ := jumps goes
          exact .link enters stands leads

/-- A walk to a node finds its way step by step. -/
theorem walk_iff_leads : host.walk .target links dir names = .ok (.node place node) ↔
    host.Leads links dir names place node := by
  constructor
  · intro found
    induction links generalizing dir names with
    | zero =>
      refine walkWith_leads (fun gone => ?_) found
      cases gone
    | succ links ih => exact walkWith_leads (fun goes => ⟨links, rfl, ih goes⟩) found
  · intro leads
    induction leads with
    | @ends links dir node here => cases links <;> rw [walk, walkWith, here]
    | @unnamed links dir next place name rest node leads permitted goes ih =>
      cases links <;> exact (walkWith_of_unnamed leads permitted .target).trans ih
    | @directory links dir place name rest mode node enters stands goes ih =>
      cases links <;> exact (walkWith_directory enters stands).trans ih
    | @file links dir name data mode enters stands =>
      cases links <;> exact walkWith_file enters stands
    | link enters stands goes ih => exact (walkWith_link enters stands).trans ih

section Grown

def Within (host after : Host) : Prop :=
  ∀ {place node}, host.node? place = some node → after.node? place = some node

theorem within_put {free : Place} (vacant : host.node? free = none) (new : Node) :
    host.Within (host.put free new) := by
  intro place node here
  rcases host.node?_put_or free new place with same | ⟨rfl, _⟩
  · rw [same, here]
  · rw [vacant] at here
    cases here

theorem erase_within (host : Host) (place : Place) : (host.erase place).Within host := by
  intro other node here
  rw [node?_erase] at here
  split at here
  · exact here
  split at here
  · cases here
  · exact here

variable (within : host.Within after)

include within

theorem Within.permits {use : Use} (permitted : host.permits use place = true) :
    after.permits use place = true := by
  unfold Host.permits at permitted ⊢
  cases here : host.node? place with
  | none => simp [here] at permitted
  | some node =>
    rw [within here]
    rwa [here] at permitted

theorem Enters.grow (enters : host.Enters dir name) : after.Enters dir name :=
  ⟨enters.named, within.permits enters.permitted, enters.short⟩

/-- A way is still there when more stands on the host, for it does not pass by what was not there. -/
theorem Leads.grow (leads : host.Leads links dir names place node) :
    after.Leads links dir names place node := by
  induction leads with
  | ends here => exact .ends (within here)
  | unnamed leads permitted goes ih => exact .unnamed leads (permitted.imp_right within.permits) ih
  | directory enters stands goes ih => exact .directory (enters.grow within) (within stands) ih
  | file enters stands => exact .file (enters.grow within) (within stands)
  | link enters stands goes ih => exact .link (enters.grow within) (within stands) ih

end Grown

section Passes

variable {left : Nat} {final : Bytes}

inductive Passes (host : Host) : Nat → Place → List Bytes → Nat → Place → Prop where
  | stays {links : Nat} {dir : Place} : Passes host links dir [] links dir
  | unnamed {links left : Nat} {dir next place : Place} {name : Bytes} {rest : List Bytes}
      (leads : unnamed? dir name = some next)
      (permitted : name = [] ∨ host.permits .enter dir = true)
      (goes : Passes host links next rest left place) :
      Passes host links dir (name :: rest) left place
  | directory {links left : Nat} {dir place : Place} {name : Bytes} {rest : List Bytes} {mode : Nat}
      (enters : host.Enters dir name)
      (stands : host.node? (dir ++ [name]) = some (.directory mode))
      (goes : Passes host links (dir ++ [name]) rest left place) :
      Passes host links dir (name :: rest) left place
  | link {links left : Nat} {dir place : Place} {name target : Bytes} {rest : List Bytes}
      (enters : host.Enters dir name)
      (stands : host.node? (dir ++ [name]) = some (.link target))
      (goes : Passes host links (walkStart dir target) (pathNames target ++ rest) left place) :
      Passes host (links + 1) dir (name :: rest) left place

theorem Passes.then (passes : host.Passes links dir names left next)
    (ends : host.Leads left next [final] place node) :
    host.Leads links dir (names ++ [final]) place node := by
  induction passes with
  | stays => exact ends
  | unnamed leads permitted goes ih => exact .unnamed leads permitted (ih ends)
  | directory enters stands goes ih => exact .directory enters stands (ih ends)
  | link enters stands goes ih => exact .link enters stands (List.append_assoc .. ▸ ih ends)

theorem Leads.passes (leads : host.Leads links dir (names ++ [final]) place node) :
    ∃ left next, host.Passes links dir names left next ∧
      host.Leads left next [final] place node := by
  generalize whole : names ++ [final] = walked at leads
  induction leads generalizing names with
  | ends here => simp at whole
  | unnamed leads permitted goes ih =>
    cases names with
    | nil =>
      obtain ⟨rfl, rfl⟩ := List.cons.inj whole
      exact ⟨_, _, .stays, .unnamed leads permitted goes⟩
    | cons name names =>
      obtain ⟨rfl, rfl⟩ := List.cons.inj whole
      obtain ⟨left, next, passes, ends⟩ := ih rfl
      exact ⟨left, next, .unnamed leads permitted passes, ends⟩
  | directory enters stands goes ih =>
    cases names with
    | nil =>
      obtain ⟨rfl, rfl⟩ := List.cons.inj whole
      exact ⟨_, _, .stays, .directory enters stands goes⟩
    | cons name names =>
      obtain ⟨rfl, rfl⟩ := List.cons.inj whole
      obtain ⟨left, next, passes, ends⟩ := ih rfl
      exact ⟨left, next, .directory enters stands passes, ends⟩
  | file enters stands =>
    cases names with
    | nil =>
      obtain ⟨rfl, _⟩ := List.cons.inj whole
      exact ⟨_, _, .stays, .file enters stands⟩
    | cons name names => simp at whole
  | @link links dir place name target rest node enters stands goes ih =>
    cases names with
    | nil =>
      obtain ⟨rfl, rfl⟩ := List.cons.inj whole
      exact ⟨_, _, .stays, .link enters stands goes⟩
    | cons name names =>
      obtain ⟨rfl, rfl⟩ := List.cons.inj whole
      obtain ⟨left, next, passes, ends⟩ := ih (List.append_assoc (pathNames target) names [final])
      exact ⟨left, next, .link enters stands passes, ends⟩

theorem leads_empty :
    host.Leads links dir [[]] place node ↔ place = dir ∧ host.node? dir = some node := by
  constructor
  · intro leads
    cases leads with
    | unnamed leads permitted goes =>
      cases leads
      cases goes with
      | ends here => exact ⟨rfl, here⟩
    | directory enters stands goes => exact absurd rfl enters.nonempty
    | file enters stands => exact absurd rfl enters.nonempty
    | link enters stands goes => exact absurd rfl enters.nonempty
  · rintro ⟨rfl, here⟩
    exact .unnamed rfl (.inl rfl) (.ends here)

theorem Leads.last {data : Bytes} {mode : Nat}
    (leads : host.Leads links dir (names ++ [[]]) place node) (enters : host.Enters place name)
    (stands : host.node? (place ++ [name]) = some (.file data mode)) :
    host.Leads links dir (names ++ [name]) (place ++ [name]) (.file data mode) := by
  obtain ⟨left, next, passes, ends⟩ := leads.passes
  obtain ⟨rfl, _⟩ := leads_empty.1 ends
  exact passes.then (.file enters stands)

theorem Leads.before (filled : final ≠ [])
    (leads : host.Leads links dir (names ++ [final]) place node) :
    ∃ parent found, host.Leads links dir (names ++ [[]]) parent found := by
  obtain ⟨left, next, passes, ends⟩ := leads.passes
  have permitted : host.permits .enter next = true := by
    cases ends with
    | unnamed leads permitted goes => exact permitted.resolve_left filled
    | directory enters stands goes => exact enters.permitted
    | file enters stands => exact enters.permitted
    | link enters stands goes => exact enters.permitted
  unfold permits at permitted
  cases here : host.node? next with
  | none => simp [here] at permitted
  | some found => exact ⟨next, found, passes.then (leads_empty.2 ⟨rfl, here⟩)⟩

theorem node?_erase_ne {other : Place} (different : other ≠ place) :
    (host.erase place).node? other = host.node? other := by
  rw [node?_erase, if_neg different, ite_self]

section Erase

variable {file : Place} {data : Bytes} {mode : Nat}
  (stands : host.node? file = some (.file data mode))

include stands

theorem node?_erase_file (different : node ≠ .file data mode) (here : host.node? place = some node) :
    (host.erase file).node? place = some node := by
  rw [node?_erase_ne, here]
  rintro rfl
  rw [stands] at here
  exact different (Option.some.inj here).symm

theorem permits_erase_file {use : Use} (directed : host.IsDirectoryAt dir) :
    (host.erase file).permits use dir = host.permits use dir := by
  obtain ⟨_, here⟩ := directed
  rw [permits, permits, node?_erase_file stands (by simp) here, here]

theorem Enters.erase (directed : host.IsDirectoryAt dir) (enters : host.Enters dir name) :
    (host.erase file).Enters dir name :=
  ⟨enters.named, (permits_erase_file stands directed).trans enters.permitted, enters.short⟩

variable (tree : host.IsTree)

include tree

/-- The way to a directory does not pass by a file. -/
theorem Passes.erase (passes : host.Passes links dir names left next)
    (directed : host.IsDirectoryAt dir) :
    (host.erase file).Passes links dir names left next ∧ host.IsDirectoryAt next := by
  induction passes with
  | stays => exact ⟨.stays, directed⟩
  | unnamed leads permitted goes ih =>
    obtain ⟨onwards, there⟩ := ih (unnamed_isDirectoryAt tree directed leads)
    have permitted := permitted.imp_right (permits_erase_file stands directed).trans
    exact ⟨.unnamed leads permitted onwards, there⟩
  | directory enters found goes ih =>
    obtain ⟨onwards, there⟩ := ih ⟨_, found⟩
    exact ⟨.directory (enters.erase stands directed) (node?_erase_file stands (by simp) found) onwards,
      there⟩
  | link enters found goes ih =>
    obtain ⟨onwards, there⟩ := ih (walkStart_isDirectoryAt directed _)
    exact ⟨.link (enters.erase stands directed) (node?_erase_file stands (by simp) found) onwards, there⟩

theorem Leads.erase (leads : host.Leads links dir (names ++ [[]]) place node)
    (directed : host.IsDirectoryAt dir) :
    (host.erase file).Leads links dir (names ++ [[]]) place node := by
  obtain ⟨left, next, passes, ends⟩ := leads.passes
  obtain ⟨rfl, here⟩ := leads_empty.1 ends
  obtain ⟨onwards, mode, there⟩ := passes.erase stands tree directed
  rw [there] at here
  cases here
  exact onwards.then (leads_empty.2 ⟨rfl, node?_erase_file stands (by simp) there⟩)

end Erase

end Passes

section Entry

variable {path : Bytes} {nameless : HostFailure}

def entryNames (path : Bytes) : List Bytes :=
  (pathNames path).filter (· ≠ [])

/-- The last name of a path is looked up in the directory that the names before it lead to. -/
theorem entryPlace_iff : host.entryPlace nameless path = .ok place ↔
    (path ≠ [] ∧ path.length < pathLimit) ∧ ∃ dir node name,
      host.Leads linkLimit (walkStart host.cwd path) ((entryNames path).dropLast ++ [[]]) dir node ∧
      (entryNames path).getLast? = some name ∧ host.Enters dir name ∧ place = dir ++ [name] := by
  unfold entryPlace
  constructor
  · intro found
    split at found
    · cases found
    rename_i nonempty
    split at found
    · cases found
    rename_i short
    simp only at found
    split at found
    · cases found
    · cases found
    rename_i dir node walked
    split at found
    · cases found
    rename_i name last
    split at found
    · cases found
    rename_i permitted
    split at found
    · cases found
    rename_i plain
    split at found
    · cases found
    rename_i within
    cases found
    refine ⟨⟨nonempty, Nat.not_le.1 short⟩, dir, node, name, walk_iff_leads.1 walked, last, ?_, rfl⟩
    obtain ⟨here, up⟩ := not_or.1 plain
    have filled : name ≠ [] := by
      simpa using (List.mem_filter.1 (List.mem_of_getLast? last)).2
    exact ⟨by simp [unnamed?, filled, here, up], by simpa using permitted, Nat.not_lt.1 within⟩
  · rintro ⟨⟨nonempty, short⟩, dir, node, name, leads, last, enters, rfl⟩
    have plain : ¬(name = [dot] ∨ name = [dot, dot]) := by
      have named := enters.named
      unfold unnamed? at named
      rintro (rfl | rfl) <;> cases named
    have walked := walk_iff_leads.2 leads
    unfold entryNames at walked last
    simp only [if_neg nonempty, if_neg (Nat.not_le.2 short), walked, last, enters.permitted,
      Bool.not_true, Bool.false_eq_true, if_false, if_neg plain, if_neg (Nat.not_lt.2 enters.short)]

theorem entryPlace_ne_root (found : host.entryPlace nameless path = .ok place) : place ≠ [] := by
  obtain ⟨_, dir, _, name, _, _, _, rfl⟩ := entryPlace_iff.1 found
  exact List.append_ne_nil_of_right_ne_nil dir (List.cons_ne_nil name [])

theorem entryPlace_congr {other : HostFailure} (found : host.entryPlace nameless path = .ok place) :
    host.entryPlace other path = .ok place :=
  entryPlace_iff.2 (entryPlace_iff.1 found)

theorem pathNames_plain (plain : endsInSlash path = false) : pathNames path = entryNames path := by
  have last : path.getLast? ≠ some slash := by simpa [endsInSlash] using plain
  simp [pathNames, entryNames, last]

theorem stat_leads (found : host.stat path = .ok (place, node)) :
    host.Leads linkLimit (walkStart host.cwd path) (pathNames path) place node := by
  have located := stat_ok.1 found
  unfold locate at located
  split at located
  · cases located
  split at located
  · cases located
  · exact walk_iff_leads.1 located

theorem stat_entry {data : Bytes} {mode : Nat} (found : host.entryPlace nameless path = .ok place)
    (stands : host.node? place = some (.file data mode)) (plain : endsInSlash path = false) :
    host.stat path = .ok (place, .file data mode) := by
  obtain ⟨⟨nonempty, short⟩, dir, node, name, leads, last, enters, rfl⟩ := entryPlace_iff.1 found
  have whole : (entryNames path).dropLast ++ [name] = pathNames path := by
    rw [pathNames_plain plain]
    exact List.dropLast_append_getLast? name last
  have goes := leads.last enters stands
  rw [whole] at goes
  rw [stat_ok, locate, if_neg nonempty, if_neg (Nat.not_le.2 short)]
  exact walk_iff_leads.2 goes

theorem entryPlace_grow (within : host.Within after) (cwd : after.cwd = host.cwd)
    (found : host.entryPlace nameless path = .ok place) :
    after.entryPlace nameless path = .ok place := by
  obtain ⟨sized, dir, node, name, leads, last, enters, rfl⟩ := entryPlace_iff.1 found
  refine entryPlace_iff.2 ⟨sized, dir, node, name, ?_, last, enters.grow within, rfl⟩
  rw [cwd]
  exact leads.grow within

end Entry

/-- The hosts differ at most at places that the name is on the way to. -/
structure Apart (name : Bytes) (host after : Host) : Prop where
  cwd : after.cwd = host.cwd
  node : ∀ {place}, name ∉ place → after.node? place = host.node? place

structure Avoids (host : Host) (name : Bytes) : Prop where
  cwd : name ∉ host.cwd
  link : ∀ {place target}, host.node? place = some (.link target) → name ∉ pathNames target

theorem apart_put (member : name ∈ place) (host : Host) (node : Node) :
    Apart name host (host.put place node) where
  cwd := rfl
  node := by
    intro other clear
    rcases host.node?_put_or place node other with same | ⟨rfl, _⟩
    · exact same
    · exact absurd member clear

section Apart

variable {other : Bytes} {aim : Aim}

theorem Apart.permits (apart : Apart name host after) (clear : name ∉ dir) (use : Use) :
    after.permits use dir = host.permits use dir := by
  unfold Host.permits
  rw [apart.node clear]

theorem walkStart_clear (clear : name ∉ dir) (path : Bytes) : name ∉ walkStart dir path := by
  unfold walkStart
  split
  · exact List.not_mem_nil
  · exact clear

theorem unnamed_clear (clear : name ∉ dir) (leads : unnamed? dir other = some next) : name ∉ next := by
  unfold unnamed? at leads
  split at leads
  · cases leads
    exact clear
  split at leads
  · cases leads
    exact fun member => clear (List.dropLast_subset dir member)
  · cases leads

theorem concat_clear (clear : name ∉ dir) (different : name ≠ other) : name ∉ dir ++ [other] := by
  simp [clear, different]

variable (avoids : host.Avoids name)

include avoids

theorem Leads.clear (leads : host.Leads links dir names place node) (clear : name ∉ dir)
    (unnamed : name ∉ names) : name ∉ place := by
  induction leads with
  | ends here => exact clear
  | unnamed leads permitted goes ih =>
    exact ih (unnamed_clear clear leads) fun member => unnamed (List.mem_cons_of_mem _ member)
  | directory enters stands goes ih =>
    obtain ⟨different, later⟩ := List.ne_and_not_mem_of_not_mem_cons unnamed
    exact ih (concat_clear clear different) later
  | file enters stands => exact concat_clear clear (List.ne_and_not_mem_of_not_mem_cons unnamed).1
  | link enters stands goes ih =>
    refine ih (walkStart_clear clear _) fun member => ?_
    rcases List.mem_append.1 member with first | later
    · exact avoids.link stands first
    · exact unnamed (List.mem_cons_of_mem _ later)

theorem walkWith_apart (apart : Apart name host after)
    {jump again : Place → List Bytes → Except HostFailure Spot}
    (jumps : ∀ {dir names}, name ∉ dir → name ∉ names → again dir names = jump dir names)
    (clear : name ∉ dir) (unnamed : name ∉ names) :
    after.walkWith again aim dir names = host.walkWith jump aim dir names := by
  induction names generalizing dir with
  | nil => rw [walkWith, walkWith, apart.node clear]
  | cons other rest ih =>
    obtain ⟨different, later⟩ := List.ne_and_not_mem_of_not_mem_cons unnamed
    rw [walkWith_cons, walkWith_cons, apart.permits clear]
    split
    · rfl
    cases leads : unnamed? dir other with
    | some next => exact ih (unnamed_clear clear leads) later
    | none =>
      have aside := concat_clear clear different
      simp only [lookUp, apart.node aside]
      split
      · rfl
      split
      · rfl
      cases stands : host.node? (dir ++ [other]) with
      | none => rfl
      | some node =>
        cases node with
        | directory mode => exact ih aside later
        | file data mode => rfl
        | link target =>
          simp only
          split
          · rfl
          refine jumps (walkStart_clear clear target) fun member => ?_
          rcases List.mem_append.1 member with first | last
          · exact avoids.link stands first
          · exact later last

theorem walk_apart (apart : Apart name host after) (clear : name ∉ dir) (unnamed : name ∉ names) :
    after.walk aim links dir names = host.walk aim links dir names := by
  induction links generalizing dir names with
  | zero => exact walkWith_apart avoids apart (fun _ _ => rfl) clear unnamed
  | succ links ih => exact walkWith_apart avoids apart ih clear unnamed

variable {path : Bytes} (apart : Apart name host after)

include apart

theorem stat_apart (unnamed : name ∉ pathNames path) : after.stat path = host.stat path := by
  have walked : after.walk .target linkLimit (walkStart host.cwd path) (pathNames path) =
      host.walk .target linkLimit (walkStart host.cwd path) (pathNames path) :=
    walk_apart avoids apart (walkStart_clear avoids.cwd path) unnamed
  simp only [stat, locate, apart.cwd, walked]

theorem mode_apart (unnamed : name ∉ pathNames path) : after.mode path = host.mode path := by
  rw [mode, mode, stat_apart avoids apart unnamed]

theorem entryPlace_apart {nameless : HostFailure} (filled : name ≠ [])
    (unnamed : name ∉ (entryNames path).dropLast) :
    after.entryPlace nameless path = host.entryPlace nameless path := by
  have start := walkStart_clear avoids.cwd path
  have aside : name ∉ (entryNames path).dropLast ++ [[]] := by simp [unnamed, filled]
  have walked : after.walk .target linkLimit (walkStart host.cwd path)
      ((entryNames path).dropLast ++ [[]]) = host.walk .target linkLimit (walkStart host.cwd path)
      ((entryNames path).dropLast ++ [[]]) := walk_apart avoids apart start aside
  unfold entryNames at walked aside
  simp only [entryPlace, apart.cwd, walked]
  cases found : host.walk .target linkLimit (walkStart host.cwd path)
      (((pathNames path).filter (· ≠ [])).dropLast ++ [[]]) with
  | error failure => rfl
  | ok spot =>
    cases spot with
    | free place => rfl
    | node dir node =>
      simp only [apart.permits ((walk_iff_leads.1 found).clear avoids start aside)]

end Apart

end Host

end Loadable
