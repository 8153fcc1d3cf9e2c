import Loadable.Proofs.Arrival
import Loadable.Proofs.Components
import Loadable.Proofs.HostPaths
/-!
Writing to the host. A file is replaced as a whole or not at all: the temporary file that is made on
the way is in nobody's way, takes the place of the old file in the end, and is gone in any case.
-/
namespace Loadable

namespace HostFailure

theorem bind_ok {α β : Type} {x : Except HostFailure α} {f : α → Except HostFailure β} {b : β}
    (done : (x >>= f) = .ok b) : ∃ a, x = .ok a ∧ f a = .ok b := by
  cases x with
  | error failure => cases done
  | ok a => exact ⟨a, rfl, done⟩

theorem check_ok {β : Type} {fails : Prop} [Decidable fails] {failure : HostFailure}
    {rest : Unit → Except HostFailure β} {b : β}
    (done : (if fails then throw failure >>= rest else rest ()) = .ok b) :
    ¬fails ∧ rest () = .ok b := by
  split at done
  case isTrue => cases done
  case isFalse passed => exact ⟨passed, done⟩

end HostFailure

namespace Host

open HostFailure (bind_ok check_ok)

variable {host made after : Host} {place : Place} {node : Node} {path name : Bytes}

section Put

theorem put_put (host : Host) (place : Place) (first second : Node) :
    (host.put place first).put place second = host.put place second := by
  simp [put, List.filter_append, List.filter_filter]

theorem erase_put (host : Host) (place : Place) (node : Node) :
    (host.put place node).erase place = host.erase place := by
  simp [put, erase, List.filter_append, List.filter_filter]

theorem put_erase (host : Host) (place : Place) (node : Node) :
    (host.erase place).put place node = host.put place node := by
  simp [put, erase, List.filter_filter]

theorem erase_vacant (vacant : host.node? place = none) (kept : place.isLost = false) :
    host.erase place = host := by
  unfold node? at vacant
  split at vacant
  · cases vacant
  rw [if_neg (by simp [kept]), Option.map_eq_none_iff, List.find?_eq_none] at vacant
  have unlisted : host.nodes.filter (·.1 ≠ place) = host.nodes :=
    List.filter_eq_self.2 fun entry member => by simpa using vacant entry member
  rw [erase, unlisted]

theorem node?_put_self (named : place ≠ []) (kept : place.isLost = false) (node : Node) :
    (host.put place node).node? place = some node := by
  rw [node?_put, if_neg (by simp [named, kept]), if_pos rfl]

theorem node?_put_ne {other : Place} (different : other ≠ place) (node : Node) :
    (host.put place node).node? other = host.node? other := by
  rcases host.node?_put_or place node other with same | ⟨same, _⟩
  · exact same
  · exact absurd same different

end Put

section Names

theorem entryNames_eq (path : Bytes) :
    entryNames path = (splitAt (· = slash) path).filter (· ≠ []) := by
  unfold entryNames pathNames
  split <;> simp [List.filter_filter]

theorem slash_not_mem_of_mem_entryNames (member : name ∈ entryNames path) : slash ∉ name := by
  rw [entryNames_eq] at member
  intro inside
  have clear := separator_not_mem_of_mem_splitAt (List.mem_of_mem_filter member) slash inside
  simp at clear

theorem joinPath_cases (clear : slash ∉ name) (dir : Bytes) :
    (dir = [] ∧ joinPath dir name = name) ∨
      ∃ before, joinPath dir name = before ++ slash :: name ∧ entryNames before = entryNames dir := by
  have relative : name.head? ≠ some slash := fun first => clear (List.mem_of_head? first)
  by_cases empty : dir = []
  · exact .inl ⟨empty, by simp [joinPath, empty]⟩
  by_cases trailing : dir.getLast? = some slash
  · obtain ⟨before, rfl⟩ := List.getLast?_eq_some_iff.1 trailing
    refine .inr ⟨before, by simp [joinPath, relative], ?_⟩
    rw [entryNames_eq, entryNames_eq, splitAt_append (by simp)]
    simp [splitAt]
  · exact .inr ⟨dir, by simp [joinPath, relative, empty, trailing], rfl⟩

theorem entryNames_of_clear (filled : name ≠ []) (clear : slash ∉ name) : entryNames name = [name] := by
  have whole : splitAt (· = slash) name = [name] := splitAt_clear fun a member => by
    simpa using fun same : a = slash => clear (same ▸ member)
  simp [entryNames_eq, whole, filled]

theorem entryNames_join (filled : name ≠ []) (clear : slash ∉ name) (dir : Bytes) :
    entryNames (joinPath dir name) = entryNames dir ++ [name] := by
  rcases joinPath_cases clear dir with ⟨rfl, alone⟩ | ⟨before, joined, same⟩
  · rw [alone, entryNames_of_clear filled clear]
    rfl
  · rw [joined, ← same, ← entryNames_of_clear filled clear, entryNames_eq, entryNames_eq,
      entryNames_eq, splitAt_append (by simp), List.filter_append]

theorem plain_join (filled : name ≠ []) (clear : slash ∉ name) (dir : Bytes) :
    endsInSlash (joinPath dir name) = false := by
  obtain ⟨last, ends⟩ := Option.ne_none_iff_exists'.1 (mt List.getLast?_eq_none_iff.1 filled)
  have other : last ≠ slash := fun same => clear (same ▸ List.mem_of_getLast? ends)
  have joined : (joinPath dir name).getLast? = some last := by
    rcases joinPath_cases clear dir with ⟨_, alone⟩ | ⟨before, joined, _⟩
    · rw [alone, ends]
    · rw [joined, List.getLast?_append, List.getLast?_cons, ends]
      rfl
  simp [endsInSlash, joined, other]

end Names

section Temporary

theorem temporaryName_filled (n : Nat) : temporaryName n ≠ [] :=
  List.append_ne_nil_of_left_ne_nil (by decide) _

theorem temporaryName_clear (n : Nat) : slash ∉ temporaryName n := by
  intro member
  rcases List.mem_append.1 member with first | last
  · revert first
    decide
  · obtain ⟨c, member, same⟩ := List.mem_map.1 last
    have digit : c.isDigit = true := by
      rcases List.mem_append.1 member with filler | written
      · rw [List.eq_of_mem_replicate filler]
        rfl
      · exact Nat.isDigit_of_mem_toDigits (by decide) (by decide) written
    have bounds : 48 ≤ c.toNat ∧ c.toNat ≤ 57 := by
      simpa [Char.isDigit, UInt32.le_iff_toNat_le] using digit
    have code := congrArg UInt8.toNat same
    change c.toNat % 256 = 47 at code
    omega

/-- The file at the place is open, and nothing else leads by its name. -/
structure Fresh (host : Host) (path temporary : Bytes) (name : Bytes) (place : Place) : Prop where
  filled : name ≠ []
  avoids : host.Avoids name
  aside : name ∉ pathNames path
  below : name ∉ place.dropLast
  named : name ∈ place
  above : name ∉ (entryNames temporary).dropLast
  plain : endsInSlash temporary = false
  entry : host.entryPlace .occupied temporary = .ok place
  vacant : host.node? place = none
  alterable : host.checkAlterable place.dropLast = .ok ()

theorem createFile_ok (done : host.createFile path = .ok (place, made)) :
    host.entryPlace .occupied path = .ok place ∧ host.node? place = none ∧
      host.checkAlterable place.dropLast = .ok () ∧
      made = host.put place (.file [] (host.granted 0o600)) := by
  obtain ⟨_, found, done⟩ := bind_ok done
  obtain ⟨free, done⟩ := check_ok done
  obtain ⟨_, alterable, done⟩ := bind_ok done
  cases done
  exact ⟨found, by simpa using free, alterable, rfl⟩

theorem createFirst_ok {dir temporary : Bytes} {names : List Bytes}
    (done : host.createFirst dir names = .ok (temporary, place, made)) :
    ∃ name ∈ names, temporary = joinPath dir name ∧
      host.createFile temporary = .ok (place, made) := by
  induction names with
  | nil => cases done
  | cons name names ih =>
    rw [createFirst] at done
    cases created : host.createFile (joinPath dir name) with
    | ok opened =>
      rw [created] at done
      cases done
      exact ⟨name, List.mem_cons_self, rfl, created⟩
    | error failure =>
      rw [created] at done
      simp only at done
      split at done
      · obtain ⟨other, member, found⟩ := ih done
        exact ⟨other, List.mem_cons_of_mem name member, found⟩
      · cases done

theorem avoids_of_not_mem (unmet : name ∉ host.namesOnWays path) : host.Avoids name where
  cwd member := unmet (by simp [namesOnWays, member])
  link := by
    intro place target stands member
    rcases node?_listed stands with listed | ⟨other, _⟩
    · exact unmet (List.mem_append_right _ (List.mem_flatMap.2 ⟨_, listed, member⟩))
    · cases other

theorem createTemporary_ok {dir temporary : Bytes}
    (done : host.createTemporary dir path = .ok (temporary, place, made)) :
    (∃ name, host.Fresh path temporary name place) ∧
      made = host.put place (.file [] (host.granted 0o600)) := by
  unfold createTemporary at done
  split at done
  · cases done
  rename_i dir' _
  split at done
  · cases done
  split at done
  case h_2 => cases done
  rename_i created
  cases done
  obtain ⟨name, drawn, rfl, opened⟩ := createFirst_ok created
  obtain ⟨found, vacant, alterable, rfl⟩ := createFile_ok opened
  obtain ⟨choice, unmet⟩ := List.mem_filter.1 drawn
  obtain ⟨n, _, rfl⟩ := List.mem_map.1 choice
  have filled := temporaryName_filled n
  have clear := temporaryName_clear n
  have names := entryNames_join filled clear dir'
  obtain ⟨outside, unseen⟩ := not_or.1 (mt List.mem_append.2 (of_decide_eq_true unmet))
  have avoids := avoids_of_not_mem unseen
  have above : temporaryName n ∉ (entryNames (joinPath dir' (temporaryName n))).dropLast := by
    rw [names, List.dropLast_concat]
    exact fun member => outside (List.mem_of_mem_filter member)
  obtain ⟨_, parent, node, last, leads, ends, enters, rfl⟩ := entryPlace_iff.1 found
  rw [names, List.getLast?_concat, Option.some.injEq] at ends
  subst ends
  have below : temporaryName n ∉ parent :=
    leads.clear avoids (walkStart_clear avoids.cwd _) (by simp [above, filled])
  refine ⟨⟨temporaryName n, ?_⟩, rfl⟩
  exact {
    filled := filled
    avoids := avoids
    aside := fun member => unseen (by simp [namesOnWays, member])
    below := by rwa [List.dropLast_concat]
    named := by simp
    above := above
    plain := plain_join filled clear dir'
    entry := found
    vacant := vacant
    alterable := alterable }

end Temporary

theorem entryPlace_kept {nameless : HostFailure} (found : host.entryPlace nameless path = .ok place)
    (alterable : host.checkAlterable place.dropLast = .ok ()) : place.isLost = false := by
  obtain ⟨_, dir, node, name, leads, last, enters, rfl⟩ := entryPlace_iff.1 found
  rw [List.dropLast_concat] at alterable
  have kept : dir.isLost = false := by
    unfold checkAlterable at alterable
    split at alterable
    · cases alterable
    · rename_i kept
      simpa using kept
  have clear : name.head? ≠ some slash := fun first =>
    slash_not_mem_of_mem_entryNames (List.mem_of_getLast? last) (List.mem_of_head? first)
  rw [Place.isLost_append, kept]
  simp [Place.isLost, clear]

namespace Fresh

variable {temporary data : Bytes} {mode : Nat} (fresh : host.Fresh path temporary name place)

include fresh

theorem apart (node : Node) : Apart name host (host.put place node) :=
  apart_put fresh.named host node

theorem stands (node : Node) : (host.put place node).node? place = some node :=
  node?_put_self (entryPlace_ne_root fresh.entry) (entryPlace_kept fresh.entry fresh.alterable) node

theorem entry_put (nameless : HostFailure) (node : Node) :
    (host.put place node).entryPlace nameless temporary = .ok place := by
  rw [entryPlace_apart fresh.avoids (fresh.apart node) fresh.filled fresh.above]
  exact entryPlace_congr fresh.entry

theorem alterable_put (node : Node) :
    (host.put place node).checkAlterable place.dropLast = .ok () := by
  have same := fresh.alterable
  unfold checkAlterable at same ⊢
  rwa [(fresh.apart node).permits fresh.below, (fresh.apart node).permits fresh.below]

theorem erase_put (node : Node) : (host.put place node).erase place = host := by
  rw [Host.erase_put, erase_vacant fresh.vacant (entryPlace_kept fresh.entry fresh.alterable)]

/-- When the temporary file is given up, the host is what it was before it was made. -/
theorem discard (data : Bytes) (mode : Nat) :
    (host.put place (.file data mode)).discard temporary = host := by
  have removed : (host.put place (.file data mode)).unlink temporary = .ok host := by
    simp only [unlink, fresh.entry_put, fresh.stands, fresh.alterable_put, fresh.plain,
      fresh.erase_put, bind, Except.bind, pure, Except.pure, Bool.false_eq_true, if_false]
  rw [Host.discard, removed]

theorem targetMode (node : Node) : (host.put place node).targetMode path = host.targetMode path := by
  unfold Host.targetMode
  rw [mode_apart fresh.avoids (fresh.apart node) fresh.aside]
  rfl

theorem changeMode (data : Bytes) (before mode : Nat) :
    (host.put place (.file data before)).changeMode temporary mode =
      .ok (host.put place (.file data (mode % 0o10000))) := by
  have found := stat_entry (fresh.entry_put .occupied _) (fresh.stands (.file data before)) fresh.plain
  simp only [Host.changeMode, found, put_put, bind, Except.bind, pure, Except.pure]

/-- The way to what the path names does not lead by the temporary file. -/
theorem goal_clear {nameless : HostFailure} {goal : Place}
    (found : host.entryPlace nameless path = .ok goal) : name ∉ goal := by
  obtain ⟨_, dir, node, last, leads, ends, enters, rfl⟩ := entryPlace_iff.1 found
  have unnamed : name ∉ entryNames path := fun member =>
    fresh.aside (List.mem_of_mem_filter member)
  have above : name ∉ (entryNames path).dropLast := fun member =>
    unnamed (List.dropLast_subset _ member)
  have below : name ∉ dir := leads.clear fresh.avoids (walkStart_clear fresh.avoids.cwd path)
    (by simp [above, fresh.filled])
  have different : name ≠ last := fun same => unnamed (same ▸ List.mem_of_getLast? ends)
  exact concat_clear below different

theorem entryPlace_path (nameless : HostFailure) (node : Node) :
    (host.put place node).entryPlace nameless path = host.entryPlace nameless path :=
  entryPlace_apart fresh.avoids (fresh.apart node) fresh.filled fun member =>
    fresh.aside (List.mem_of_mem_filter (List.dropLast_subset _ member))

theorem rename (done : (host.put place (.file data mode)).rename temporary path = .ok after) :
    ∃ goal, host.entryPlace .busy path = .ok goal ∧ ¬host.IsDirectoryAt goal ∧
      host.checkAlterable goal.dropLast = .ok () ∧ endsInSlash path = false ∧
      after = host.put goal (.file data mode) := by
  obtain ⟨origin, led, done⟩ := bind_ok done
  rw [fresh.entry_put] at led
  cases led
  obtain ⟨goal, found, done⟩ := bind_ok done
  rw [fresh.entryPlace_path] at found
  rw [fresh.stands] at done
  obtain ⟨plain, done⟩ := check_ok done
  obtain ⟨_, _, done⟩ := bind_ok done
  obtain ⟨_, alterable, done⟩ := bind_ok done
  have apart := fresh.apart (.file data mode)
  have clear := fresh.goal_clear found
  have below : name ∉ goal.dropLast := fun member => clear (List.dropLast_subset _ member)
  unfold checkAlterable at alterable
  rw [apart.permits below, apart.permits below] at alterable
  rw [apart.node clear] at done
  have undirected : ¬host.IsDirectoryAt goal := by
    rintro ⟨mode, here⟩
    rw [here] at done
    cases done
  refine ⟨goal, found, undirected, alterable, by simpa using plain, ?_⟩
  rw [fresh.erase_put] at done
  split at done
  · cases done
  · cases done
    rfl

end Fresh

theorem targetMode_ok {bits : Nat} (done : host.targetMode path = .ok bits) :
    hasNul path = false ∧
      ((∃ mode, host.mode path = .ok mode ∧ bits = mode % 0o10000) ∨
        ∃ failure, host.mode path = .error failure ∧ failure.kind = .absent ∧
          bits = host.fileMode) := by
  unfold targetMode at done
  split at done
  · cases done
  rename_i free
  refine ⟨by simpa using free, ?_⟩
  cases found : host.mode path with
  | ok mode =>
    rw [found] at done
    cases done
    exact .inl ⟨mode, rfl, rfl⟩
  | error failure =>
    rw [found] at done
    simp only at done
    split at done
    case isTrue absent =>
      cases done
      exact .inr ⟨failure, rfl, absent, rfl⟩
    case isFalse => cases done

theorem targetMode_mod {bits : Nat} (done : host.targetMode path = .ok bits) :
    bits % 0o10000 = bits := by
  rcases (targetMode_ok done).2 with ⟨mode, _, rfl⟩ | ⟨_, _, _, rfl⟩
  · exact Nat.mod_mod mode _
  · exact Nat.mod_eq_of_lt (Nat.lt_of_le_of_lt (Nat.sub_le 0o666 _) (by decide))

/-- How replacing ends: what the path names is replaced by the data, with the permissions it had, or
the host is what it was before. -/
theorem replace_cases (host : Host) (path data : Bytes) :
    (∃ mishap, host.replace path data = (.error mishap, host)) ∨
      ∃ place mode, host.replace path data = (.ok (), host.put place (.file data mode)) ∧
        host.entryPlace .busy path = .ok place ∧ host.checkAlterable place.dropLast = .ok () ∧
        ¬host.IsDirectoryAt place ∧ endsInSlash path = false ∧ host.targetMode path = .ok mode := by
  unfold replace
  split
  · exact .inl ⟨_, rfl⟩
  rename_i temporary place opened created
  obtain ⟨⟨name, fresh⟩, rfl⟩ := createTemporary_ok created
  have filled : (host.put place (.file [] (host.granted 0o600))).fill place data =
      host.put place (.file data (modeOnceWritten (host.granted 0o600))) := by
    rw [fill, fresh.stands]
    exact put_put _ _ _ _
  rw [filled, moveInto, fresh.targetMode]
  cases target : host.targetMode path with
  | error mishap => exact .inl ⟨mishap, by simp only [fresh.discard]⟩
  | ok mode =>
    simp only [fresh.changeMode, targetMode_mod target]
    cases moved : (host.put place (.file data mode)).rename temporary path with
    | error failure => exact .inl ⟨.host failure, by simp only [fresh.discard]⟩
    | ok after =>
      obtain ⟨goal, found, undirected, alterable, plain, rfl⟩ := fresh.rename moved
      exact .inr ⟨goal, mode, rfl, found, alterable, undirected, plain, rfl⟩

theorem writeKey_cases (host : Host) (key : Key) (data : Bytes) :
    (∃ raised, host.writeKey key data = (.error raised, host)) ∨
      ∃ place bits, host.writeKey key data = (.ok (), host.put place (.file data bits)) ∧
        host.entryPlace .busy key = .ok place ∧ host.checkAlterable place.dropLast = .ok () ∧
        ¬host.IsDirectoryAt place ∧ endsInSlash key = false ∧ host.targetMode key = .ok bits := by
  unfold writeKey
  rcases host.replace_cases key data with ⟨mishap, failed⟩ | ⟨place, bits, done, replaced⟩
  · rw [failed]
    left
    split
    case h_1 same => cases same
    case h_2 same =>
      cases same
      exact ⟨_, rfl⟩
    case h_3 same =>
      cases same
      exact ⟨_, rfl⟩
  · rw [done]
    exact .inr ⟨place, bits, rfl, replaced⟩

/-- What a write leaves on the host: a file with the data and the permissions at the place, and all else
as it was. -/
structure Replaces (host after : Host) (place : Place) (data : Bytes) (bits : Nat) : Prop where
  entry : after.node? place = some (.file data bits)
  others : ∀ other ≠ place, after.node? other = host.node? other
  rest : after = { host with nodes := after.nodes }

/-- The way to a path's own entry does not lead through that entry. -/
def IsStraight (host : Host) (path : Bytes) (place : Place) : Prop :=
  (host.erase place).entryPlace .busy path = .ok place

section Written

variable {data : Bytes} {bits : Nat} {key : Key}

/-- What was written is read where the way to it does not lead through what was replaced, if its
permissions let its owner read it and the host does not deny the path. -/
theorem readKey_put (way : host.IsStraight key place) (named : place ≠ [])
    (kept : place.isLost = false) (free : hasNul key = false) (plain : endsInSlash key = false) :
    (host.put place (.file data bits)).readKey key = .ok data ↔
      Use.read.permitted bits = true ∧ key ∉ host.denied := by
  have vacant : (host.erase place).node? place = none := by
    rw [node?_erase, if_neg (by simp [named, kept]), if_pos rfl]
  have goes := entryPlace_grow (within_put vacant (.file data bits)) rfl way
  rw [put_erase] at goes
  have stands := host.node?_put_self named kept (.file data bits)
  have found := stat_entry goes stands plain
  have permits : (host.put place (.file data bits)).permits .read place = Use.read.permitted bits := by
    rw [Host.permits, stands]
  have read : (host.put place (.file data bits)).readFile key =
      if Use.read.permitted bits = true ∧ key ∉ host.denied then .ok data else .error .denied := by
    have same : (host.put place (.file data bits)).denied = host.denied := rfl
    simp only [readFile, same, found, permits]
    by_cases barred : key ∈ host.denied
    · simp [barred]
    · cases Use.read.permitted bits <;> simp [barred]
  rw [readKey, if_neg (by simp [free]), read]
  by_cases readable : Use.read.permitted bits = true ∧ key ∉ host.denied
  · simp [readable]
  · simp only [readable, if_false, iff_false]
    split <;> simp

theorem stat_of_readKey (read : host.readKey key = .ok data) : ∃ spot, host.stat key = .ok spot := by
  unfold readKey readFile at read
  cases seen : host.stat key with
  | ok spot => exact ⟨spot, rfl⟩
  | error failure =>
    rw [seen] at read
    split at read
    · cases read
    split at read
    case h_1 opened => split at opened <;> cases opened
    case h_2 => split at read <;> cases read

theorem isStraight_of_leads {dir : Place} {node : Node}
    (found : host.entryPlace .busy key = .ok (dir ++ [name]))
    (aside : (host.erase (dir ++ [name])).Leads linkLimit (walkStart host.cwd key)
      ((entryNames key).dropLast ++ [[]]) dir node) :
    host.IsStraight key (dir ++ [name]) := by
  obtain ⟨sized, parent, _, last, _, ends, enters, shape⟩ := entryPlace_iff.1 found
  obtain ⟨rfl, same⟩ := List.append_inj' shape rfl
  cases same
  have permits : (host.erase (dir ++ [name])).permits .enter dir = host.permits .enter dir := by
    rw [Host.permits, Host.permits, node?_erase_ne (by simp)]
  exact entryPlace_iff.2 ⟨sized, dir, node, name, aside, ends,
    ⟨enters.named, permits.trans enters.permitted, enters.short⟩, rfl⟩

variable (tree : host.IsTree) (found : host.entryPlace .busy key = .ok place)

include tree found

theorem isStraight_of_unlinked (kept : place.isLost = false) (undirected : ¬host.IsDirectoryAt place)
    (unlinked : ∀ target, host.node? place ≠ some (.link target)) : host.IsStraight key place := by
  cases stands : host.node? place with
  | none => rwa [IsStraight, erase_vacant stands kept]
  | some node =>
    cases node with
    | directory mode => exact absurd ⟨mode, stands⟩ undirected
    | link target => exact absurd stands (unlinked target)
    | file data mode =>
      obtain ⟨_, dir, _, name, leads, _, _, rfl⟩ := entryPlace_iff.1 found
      exact isStraight_of_leads found
        (leads.erase stands tree (walkStart_isDirectoryAt tree.cwd key))

/-- When the path of a file that was put in place leads anywhere, it does not lead through its entry. -/
theorem isStraight_of_stat (kept : place.isLost = false) (undirected : ¬host.IsDirectoryAt place)
    (plain : endsInSlash key = false) {spot : Place × Node}
    (seen : (host.put place (.file data bits)).stat key = .ok spot) : host.IsStraight key place := by
  obtain ⟨_, dir, _, name, way, last, enters, rfl⟩ := entryPlace_iff.1 found
  have made : (host.put (dir ++ [name]) (.file data bits)).IsTree :=
    tree.of_same rfl (isDirectoryAt_put_other undirected fun _ => nofun)
  have leads := stat_leads seen
  rw [pathNames_plain plain, ← List.dropLast_append_getLast? name last] at leads
  obtain ⟨parent, there, above⟩ := leads.before enters.nonempty
  have stands := host.node?_put_self (entryPlace_ne_root found) kept (.file data bits)
  have aside := above.erase stands made (walkStart_isDirectoryAt made.cwd key)
  rw [erase_put] at aside
  -- What is found without the entry is found with it, so it is where the path's own way led.
  have both := (walk_iff_leads.2 (aside.grow (host.erase_within _))).symm.trans (walk_iff_leads.2 way)
  cases both
  exact isStraight_of_leads found aside

end Written

end Host

namespace Store

variable {s : Store} {key : Key} {data : Bytes} {w : World}

theorem writeHost_failed {raised : Raised}
    (failed : w.host.writeKey key data = (.error raised, w.host)) :
    s.writeHost key data w = (.error raised, w) := by
  simp only [writeHost, Act.bind_apply, Act.onHost, failed]

theorem writeHost_done {host : Host} (done : w.host.writeKey key data = (.ok (), host)) :
    ∃ log, s.writeHost key data w = (.ok (), { w with
      host := host
      tables := { w.tables with hooks := w.tables.hooks.erase key }
      log := log }) := by
  simp only [writeHost, Act.bind_apply, Act.onHost, done]
  exact ⟨_, rfl⟩

theorem read_native (native : s.backend = .native) {path : GivenPath}
    (resolved : s.ownKey path = .ok key) (w : World) : (s.read path w).1 = w.host.readKey key := by
  have leads := leadsTo_ownKey (.inr native) resolved
  rw [leads.read_eq]
  simp only [readKey, native]
  change (Act.of (w.host.readKey key) w).1 = _
  cases w.host.readKey key <;> rfl

/-- A write to a native store is done as a whole or not at all. When it is done, the path's own entry is
a file with the data, and with the permissions of what the path named before or those of a new file;
nothing else on the host has changed, and the hook at the key is gone. Every path with that key reads
the data exactly if the permissions let its owner read it, the host does not deny the path, and the way
there does not lead through the entry, as it can when a link stood there. When it is not done, the
host and the hooks are what they were.

The name of the temporary file is assumed to be on no way: it is none of the names in the path, in the
targets of links and above the process (`Host.createTemporary`). -/
theorem write_whole_or_nothing (native : s.backend = .native) (path : GivenPath) (given : GivenData)
    (w : World) :
    (∃ raised, (s.write path given w).1 = .error raised ∧
      (s.write path given w).2.host = w.host ∧ (s.write path given w).2.tables = w.tables) ∨
    ∃ key data place bits after, s.write path given w = (.ok (), after) ∧
      s.ownKey path = .ok key ∧ given.asBytes = .ok data ∧
      w.host.entryPlace .busy key = .ok place ∧
      ((∃ mode, w.host.mode key = .ok mode ∧ bits = mode % 0o10000) ∨
        ∃ failure, w.host.mode key = .error failure ∧ failure.kind = .absent ∧
          bits = 0o666 - (0o666 &&& w.host.umask)) ∧
      w.host.Replaces after.host place data bits ∧
      after.tables = { w.tables with hooks := after.tables.hooks } ∧
      (∀ other, after.tables.hooks.get? other =
        if other = key then none else w.tables.hooks.get? other) ∧
      (∀ other, s.ownKey other = .ok key →
        (w.host.IsStraight key place → ((s.read other after).1 = .ok data ↔
          Use.read.permitted bits = true ∧ key ∉ w.host.denied)) ∧
        (w.host.IsTree → (s.read other after).1 = .ok data → w.host.IsStraight key place)) ∧
      (w.host.IsTree → (∀ target, w.host.node? place ≠ some (.link target)) →
        w.host.IsStraight key place) := by
  have resolve : ∀ path v, s.resolve path v = Act.of (s.ownKey path) v := by
    intro path v
    rw [Store.resolve, native]
  cases resolved : s.ownKey path with
  | error raised =>
    refine .inl ⟨raised, ?_⟩
    simp only [write, Act.bind_apply, resolve, resolved]
    exact ⟨rfl, rfl, rfl⟩
  | ok key =>
    have goes : s.write path given w = (Act.ofMishap given.asBytes >>= s.writeHost key) w := by
      simp only [write, writeKey, native, Act.bind_apply, resolve, resolved]
      rfl
    cases stored : given.asBytes with
    | error mishap =>
      rw [goes, stored]
      exact .inl ⟨.mishap mishap, rfl, rfl, rfl⟩
    | ok data =>
      have writes : s.write path given w = s.writeHost key data w := by
        rw [goes, stored]
        rfl
      rcases w.host.writeKey_cases key data with ⟨raised, failed⟩ | ⟨place, bits, done, found,
        alterable, undirected, plain, target⟩
      · rw [writes, writeHost_failed failed]
        exact .inl ⟨raised, rfl, rfl, rfl⟩
      · obtain ⟨log, wrote⟩ := writeHost_done (s := s) done
        have named := Host.entryPlace_ne_root found
        have kept := Host.entryPlace_kept found alterable
        obtain ⟨free, permissions⟩ := Host.targetMode_ok target
        rw [writes, wrote]
        refine .inr ⟨key, data, place, bits, _, rfl, rfl, rfl, found, permissions, ?_, rfl, ?_, ?_,
          fun tree unlinked => Host.isStraight_of_unlinked tree found kept undirected unlinked⟩
        · exact ⟨Host.node?_put_self named kept _, fun other different => Host.node?_put_ne different _,
            rfl⟩
        · exact fun other => KeyMap.get?_erase _ key other
        · intro other same
          rw [read_native native same]
          refine ⟨fun way => Host.readKey_put way named kept free plain, fun tree read => ?_⟩
          obtain ⟨spot, seen⟩ := Host.stat_of_readKey read
          exact Host.isStraight_of_stat tree found kept undirected plain seen

/-- A file that only its owner may use is replaced, and the hook that was registered for it is gone. -/
theorem private_file_written :
    let s : Store := ⟨.posix, ("/" : Text), .native⟩
    let place : Place := [Bytes.ofString "a.rb"]
    let w : World := {
      host := { nodes := [(place, .file (Bytes.ofString "1") 0o600)] }
      tables := { hooks := ⟨[(Bytes.ofString "/a.rb", ⟨("h" : Text), none, none⟩)]⟩ } }
    ∃ after, s.write (.text ("a.rb" : Text)) (.bytes (Bytes.ofString "2")) w = (.ok (), after) ∧
      after.host.node? place = some (.file (Bytes.ofString "2") 0o600) ∧
      after.tables.hooks.get? (Bytes.ofString "/a.rb") = none ∧
      (s.read (.text ("/b/../a.rb" : Text)) after).1 = .ok (Bytes.ofString "2") := by
  intro s place w
  rcases write_whole_or_nothing (s := s) rfl (.text ("a.rb" : Text)) (.bytes (Bytes.ofString "2")) w
    with ⟨raised, failed, _⟩ | ⟨key, data, _, bits, after, wrote, resolved, stored, found, permissions,
      replaces, _, hooks, reads, _⟩
  · have done : (s.write (.text ("a.rb" : Text)) (.bytes (Bytes.ofString "2")) w).1 = .ok () := by
      decide +kernel
    rw [done] at failed
    cases failed
  have own : s.ownKey (.text ("a.rb" : Text)) = .ok (Bytes.ofString "/a.rb") := by decide +kernel
  rw [own] at resolved
  cases resolved
  cases stored
  have there : w.host.entryPlace .busy (Bytes.ofString "/a.rb") = .ok place := by decide +kernel
  rw [there] at found
  cases found
  have before : w.host.mode (Bytes.ofString "/a.rb") = .ok 0o600 := by decide +kernel
  rw [before] at permissions
  obtain ⟨_, same, rfl⟩ | ⟨_, failed, _⟩ := permissions
  · cases same
    have straight : w.host.IsStraight (Bytes.ofString "/a.rb") place := by
      unfold Host.IsStraight
      decide +kernel
    have spelled : s.ownKey (.text ("/b/../a.rb" : Text)) = .ok (Bytes.ofString "/a.rb") := by
      decide +kernel
    refine ⟨after, wrote, replaces.entry, (hooks _).trans (if_pos rfl), ?_⟩
    exact ((reads _ spelled).1 straight).2 (by decide)
  · cases failed

/-- What was written need not be readable: not where the file that it replaced was closed to its owner,
nor where the path led through a link and up again, and it is this link that was replaced. -/
theorem written_unread :
    let s : Store := ⟨.posix, ("/" : Text), .native⟩
    let path : GivenPath := .text ("b/c" : Text)
    let data := Bytes.ofString "data"
    let b := Bytes.ofString "b"
    let c := Bytes.ofString "c"
    let d := Bytes.ofString "d"
    let barred : Host := { nodes := [([b], .directory 0o755), ([b, c], .file [] 0)] }
    let linked : Host := { nodes := [([d], .directory 0o755), ([d, d], .directory 0o755),
      ([d, c], .link d), ([b], .link (Bytes.ofString "d/c/.."))] }
    ∀ host ∈ [barred, linked], host.IsTree ∧ (s.write path (.bytes data) { host := host }).1 = .ok () ∧
      (s.read path (s.write path (.bytes data) { host := host }).2).1 ≠ .ok data := by
  intro s path data b c d barred linked
  have trees : barred.IsTree ∧ linked.IsTree :=
    ⟨Host.isTree_of_listed (by decide) (by decide) (by decide),
      Host.isTree_of_listed (by decide) (by decide) (by decide)⟩
  rintro host (_ | ⟨_, _ | ⟨_, ⟨⟩⟩⟩)
  · exact ⟨trees.1, by decide +kernel, by decide +kernel⟩
  · exact ⟨trees.2, by decide +kernel, by decide +kernel⟩

end Store

end Loadable
