import Loadable.Proofs.Anchored
import Loadable.Proofs.Lossless
import Loadable.Proofs.Slashes
/-!
Paths without a drive against an `nt` directory that has one. The drive and its root lie below the
levels of the directory, so the number of `..` in excess tells where a path comes out: below the root
of the drive, on the bare drive after one too many, at the root of no drive after more than one.
-/
namespace Loadable

namespace Component

variable {α : Type} [DecidableEq α] [PathLetter α] {c : Component α}

theorem written_of_ofPiece {mayBeHere : Bool} {piece : List α}
    (read : ofPiece? mayBeHere piece = some c) : c.written = piece ∧ piece ≠ [] := by
  unfold ofPiece? at read
  split at read
  · cases read
  case isFalse nonempty =>
    refine ⟨?_, nonempty⟩
    split at read
    case isTrue here =>
      split at read
      · cases read
        exact here.symm
      · cases read
    case isFalse =>
      split at read
      case isTrue up =>
        cases read
        exact up.symm
      case isFalse =>
        cases read
        rfl

theorem piece_of_mem_ofPieces {rooted : Bool} {pieces : List (List α)}
    (member : c ∈ ofPieces rooted pieces) : c.written ∈ pieces ∧ c.written ≠ [] := by
  cases pieces with
  | nil => exact absurd member List.not_mem_nil
  | cons piece pieces =>
    rcases List.mem_append.1 member with first | later
    · obtain ⟨rfl, nonempty⟩ := written_of_ofPiece (Option.mem_toList.1 first)
      exact ⟨List.mem_cons_self, nonempty⟩
    · obtain ⟨other, inside, read⟩ := List.mem_filterMap.1 later
      obtain ⟨rfl, nonempty⟩ := written_of_ofPiece read
      exact ⟨List.mem_cons_of_mem piece inside, nonempty⟩

theorem ofPieces_rooted (pieces : List (List α)) :
    ofPieces true pieces = pieces.filterMap (ofPiece? false) := by
  cases pieces with
  | nil => rfl
  | cons piece pieces =>
    rw [ofPieces, List.filterMap_cons, Bool.not_true]
    cases ofPiece? false piece <;> rfl

theorem stands_of_mem_pieces {f : Flavor} {rooted : Bool} {path : List α}
    (member : c ∈ ofPieces rooted (splitAt f.isSeparator path)) : c.Stands f := by
  obtain ⟨inside, nonempty⟩ := piece_of_mem_ofPieces member
  exact ⟨leadsOn_of_mem_ofPieces member, nonempty, separator_not_mem_of_mem_splitAt inside⟩

end Component

namespace Flavor

section Climbing

variable {α : Type}

/-- Above a directory the levels below its root are left one by one. -/
theorem climb_drop {relative : Bool} {lead : List (Component α)} (kept : lead ≠ [])
    {gathered : List (Component α)} {levels : Nat} (few : levels ≤ gathered.length) :
    climb relative levels (gathered ++ lead) = gathered.drop levels ++ lead := by
  induction levels with
  | zero => rfl
  | succ levels ih =>
    rw [climb, ih (Nat.le_of_succ_le few), ← List.drop_drop]
    cases rest : gathered.drop levels with
    | nil =>
      have none : gathered.length ≤ levels := List.drop_eq_nil_iff.1 rest
      omega
    | cons c rest => simp [advance, kept]

/-- Where a path stands when it has climbed so many levels from a directory on a drive. -/
def footing (drive : List α) (above : List (Component α)) (levels : Nat) : List (Component α) :=
  if levels ≤ above.length then .drive drive :: .root :: above.take (above.length - levels)
  else if levels = above.length + 1 then [.drive drive]
  else [.root]

theorem climb_footing (drive : List α) (above : List (Component α)) (levels : Nat) :
    (climb false levels (above.reverse ++ [.root, .drive drive])).reverse =
      footing drive above levels := by
  have kept : [.root, .drive drive] ≠ ([] : List (Component α)) := List.cons_ne_nil _ _
  have size : above.reverse.length = above.length := List.length_reverse
  by_cases few : levels ≤ above.length
  · rw [climb_drop kept (by omega), footing, if_pos few, List.drop_reverse, List.reverse_append,
      List.reverse_reverse]
    rfl
  · obtain ⟨more, rfl⟩ : ∃ more, levels = above.length + (more + 1) :=
      ⟨levels - above.length - 1, by omega⟩
    have atRoot : climb false above.length (above.reverse ++ [.root, .drive drive]) =
        [.root, .drive drive] := by
      rw [climb_drop kept (by omega), List.drop_of_length_le (by omega), List.nil_append]
    rw [climb_add, atRoot, footing, if_neg few]
    -- The first level too many takes the root, the second one the drive, and then a root stays.
    cases more with
    | zero => rw [if_pos rfl]; rfl
    | succ more =>
      have out : climb false 2 [.root, .drive drive] = [(.root : Component α)] := rfl
      have stays : climb false more [(.root : Component α)] = [.root] := climb_stays rfl more
      have sum : more + 1 + 1 = 2 + more := by omega
      rw [if_neg (by omega), sum, climb_add, out, stays]
      rfl

end Climbing

section Reading

def levels (rest : Text) : List (Component CodePoint) :=
  (splitAt nt.isSeparator rest).filterMap (Component.ofPiece? false)

theorem splitDrive_letter (x : CodePoint) (rest : Text) :
    nt.splitDrive (x :: colon :: rest) = ([x, colon], rest) := by
  have away : nt.isSeparator (colon : CodePoint) = false := by decide
  rw [splitDrive, if_neg (by simp [away]), if_pos rfl]

theorem components_onDrive (x : CodePoint) {s : CodePoint} (separates : nt.isSeparator s = true)
    (rest : Text) :
    nt.components (x :: colon :: s :: rest) = .drive [x, colon] :: .root :: levels rest := by
  have split := splitDrive_letter x (s :: rest)
  have rooted : nt.startsRooted (s :: rest) = true := separates
  have pieces : splitAt nt.isSeparator (s :: rest) = [] :: splitAt nt.isSeparator rest := by
    rw [splitAt, if_pos separates]
  simp only [components, split, rooted, pieces, Component.ofPieces, Bool.true_or]
  rfl

theorem splitShare_ne_nil {path : Text} (nonempty : path ≠ []) (lead : Nat) :
    (splitShare lead path).1 ≠ [] := by
  simp only [splitShare]
  split
  · exact nonempty
  · split
    · exact nonempty
    · simp

theorem splitDrive_bare {path : Text} (bare : (nt.splitDrive path).1 = []) :
    nt.splitDrive path = ([], path) := by
  match path with
  | [] => rfl
  | [_] => rfl
  | a :: b :: path =>
    rw [splitDrive] at bare ⊢
    by_cases share : nt.isSeparator a = true ∧ nt.isSeparator b = true
    · rw [if_pos share] at bare
      exact absurd bare (splitShare_ne_nil (List.cons_ne_nil a _) _)
    · by_cases letter : b = colon
      · rw [if_neg share, if_pos letter] at bare
        cases bare
      · rw [if_neg share, if_neg letter]

variable {path : Text}

theorem components_bare (bare : (nt.splitDrive path).1 = []) :
    nt.components path = (if nt.startsRooted path then [.root] else []) ++
      Component.ofPieces (nt.startsRooted path) (splitAt nt.isSeparator path) := by
  simp [components, splitDrive_bare bare, isShare]

theorem stands_of_mem_levels {rest : Text} {c : Component CodePoint} (member : c ∈ levels rest) :
    c.Stands nt := by
  rw [levels, ← Component.ofPieces_rooted] at member
  exact Component.stands_of_mem_pieces member

theorem stands_of_bare (bare : (nt.splitDrive path).1 = []) {c : Component CodePoint}
    (member : c ∈ nt.components path) : c = .root ∨ c.Stands nt := by
  rw [components_bare bare] at member
  rcases List.mem_append.1 member with front | piece
  · left
    split at front
    · exact List.mem_singleton.1 front
    · exact absurd front List.not_mem_nil
  · exact .inr (Component.stands_of_mem_pieces piece)

theorem start_leadsOn {f : Flavor} (leads : ∀ c ∈ f.components path, c.LeadsOn) (cwd : Text) :
    f.start (f.components path) cwd = (!f.isAbsolute cwd, (f.components cwd).reverse) := by
  unfold Flavor.start
  split
  case h_1 rest rooted => exact (leads .root (rooted ▸ List.mem_cons_self)).elim
  case h_2 => rfl

/-- Below the levels of a directory on a drive stand the root and the drive. -/
theorem absolutize_onDrive (leads : ∀ c ∈ nt.components path, c.LeadsOn) (x : CodePoint)
    {s : CodePoint} (separates : nt.isSeparator s = true) (rest : Text) :
    nt.absolutize path (x :: colon :: s :: rest) =
      nt.join ((nt.components path).foldl (advance false)
        ((levels rest).reverse ++ [.root, .drive [x, colon]])).reverse := by
  have directory := components_onDrive x separates rest
  have absolute : nt.isAbsolute (x :: colon :: s :: rest) = true := by simp [isAbsolute, directory]
  have reversed : (nt.components (x :: colon :: s :: rest)).reverse =
      (levels rest).reverse ++ [.root, .drive [x, colon]] := by simp [directory]
  rw [absolutize, gather_eq, start_leadsOn leads, absolute, reversed, Bool.not_true]

end Reading

section Footing

variable {path : Text} (bare : (nt.splitDrive path).1 = [])

include bare

theorem absolutize_bare_rooted (rooted : nt.startsRooted path = true) (cwd : Text) :
    nt.absolutize path cwd = nt.join (.root :: (Course.of (nt.components path)).descent) := by
  have found := components_bare bare
  rw [rooted, if_pos rfl, List.singleton_append] at found
  have leads : ∀ c ∈ Component.ofPieces true (splitAt nt.isSeparator path), c.LeadsOn := fun c =>
    Component.leadsOn_of_mem_ofPieces
  rw [absolutize, gather_rooted found, foldl_advance_root leads, found]
  rfl

/-- The rest of a path is written behind the place it has climbed to. -/
theorem absolutize_footing (unrooted : nt.startsRooted path = false) (x : CodePoint) {s : CodePoint}
    (separates : nt.isSeparator s = true) (rest : Text) :
    nt.absolutize path (x :: colon :: s :: rest) = nt.join
      (footing [x, colon] (levels rest) (Course.of (nt.components path)).climbs ++
        (Course.of (nt.components path)).descent) := by
  have leads : ∀ c ∈ nt.components path, c.LeadsOn := by
    have found := components_bare bare
    rw [unrooted, if_neg Bool.false_ne_true, List.nil_append] at found
    rw [found]
    exact fun c => Component.leadsOn_of_mem_ofPieces
  have holds : Holds false ((levels rest).reverse ++ [.root, .drive [x, colon]]) := .inr (by simp)
  rw [absolutize_onDrive leads x separates, ← climb_footing, foldl_advance_of holds leads]

end Footing

section Keys

theorem keyOf_ok {f : Flavor} {text : Text} {key : Key} :
    f.keyOf text = .ok key ↔ ∃ bytes, Text.encode? text = some bytes ∧ key = f.normalize bytes := by
  unfold keyOf Text.encode
  cases Text.encode? text with
  | none => simp [Except.map]
  | some bytes => simp [Except.map, eq_comm]

theorem prefix_of_keyOf {front text : Text} {bytes : Bytes} {key : Key}
    (encoded : Text.encode? front = some bytes) (begins : front <+: text)
    (keyed : nt.keyOf text = .ok key) : nt.normalize bytes <+: key := by
  obtain ⟨whole, written, rfl⟩ := keyOf_ok.1 keyed
  obtain ⟨rest, rfl⟩ := begins
  obtain ⟨first, more, head, _, rfl⟩ := Text.encode?_append.1 written
  rw [encoded, Option.some.injEq] at head
  rw [← head, normalize_append]
  exact List.prefix_append _ _

theorem normalize_clear {bytes : Bytes} (clear : backslash ∉ bytes) : nt.normalize bytes = bytes := by
  refine (List.map_congr_left fun b member => if_neg ?_).trans (List.map_id bytes)
  rintro rfl
  exact clear member

variable {x : Char} (letter : x.isAlpha = true)

include letter

theorem ascii_of_isAlpha : x.toNat < 0x80 ∧ (PathLetter.ascii x : UInt8) ≠ slash ∧
    (PathLetter.ascii x : UInt8) ≠ backslash := by
  have range : x.toNat < 0x80 ∧ x.toNat ≠ 0x2F ∧ x.toNat ≠ 0x5C := by
    have cased : (decide (x.toNat ≥ 65 ∧ x.toNat ≤ 90) ||
        (decide (x.toNat ≥ 97) && decide (x.toNat ≤ 122))) = true := letter
    simp only [Bool.or_eq_true, Bool.and_eq_true, decide_eq_true_eq] at cased
    omega
  obtain ⟨small, notSlash, notBackslash⟩ := range
  have number : (PathLetter.ascii x : UInt8).toNat = x.toNat := by
    change x.toNat.toUInt8.toNat = x.toNat
    rw [Nat.toUInt8_eq, UInt8.toNat_ofNat']
    omega
  refine ⟨small, fun same => notSlash ?_, fun same => notBackslash ?_⟩
  · rw [← number, same]
    rfl
  · rw [← number, same]
    rfl

theorem keyOf_letter {text : Text} (clear : backslash ∉ text) {key : Key} :
    nt.keyOf (.scalar x :: colon :: text) = .ok key ↔
      ∃ more, Text.encode? text = some more ∧ key = PathLetter.ascii x :: colon :: more := by
  obtain ⟨small, _, other⟩ := ascii_of_isAlpha letter
  have ascii : ∀ c ∈ [x, ':'], c.toNat < 0x80 := by simp [small]
  have lead : Text.encode? [.scalar x, colon] = some [PathLetter.ascii x, colon] :=
    Text.encode?_ascii ascii
  have apart : (backslash : UInt8) ≠ colon := by decide
  have normal : ∀ more, Text.encode? text = some more →
      nt.normalize ([PathLetter.ascii x, colon] ++ more) = PathLetter.ascii x :: colon :: more := by
    intro more encoded
    refine normalize_clear fun member => ?_
    rcases List.mem_append.1 member with front | behind
    · simp [apart, other.symm] at front
    · exact clear (Text.ascii_mem_of_encode? (by decide) encoded behind)
  change nt.keyOf ([.scalar x, colon] ++ text) = .ok key ↔ _
  rw [keyOf_ok]
  constructor
  · rintro ⟨bytes, encoded, rfl⟩
    obtain ⟨first, more, head, tail, rfl⟩ := Text.encode?_append.1 encoded
    rw [lead, Option.some.injEq] at head
    exact ⟨more, tail, by rw [← head, normal more tail]⟩
  · rintro ⟨more, encoded, rfl⟩
    exact ⟨_, Text.encode?_append.2 ⟨_, more, lead, encoded, rfl⟩, (normal more encoded).symm⟩

end Keys

section Joining

theorem flatMap_slashAlike (names : List Text) :
    List.Forall₂ SlashAlike (names.flatMap (backslash :: ·)) (names.flatMap (slash :: ·)) := by
  induction names with
  | nil => exact .nil
  | cons name names ih =>
    have separators : SlashAlike backslash slash := by decide
    exact .cons separators (List.rel_append (slashAlike_refl name) ih)

theorem foldl_push_slashAlike {buffer other : Text} (alike : List.Forall₂ SlashAlike buffer other)
    (free : nt.needsSeparator buffer = false) (long : 2 ≤ buffer.length)
    {components : List (Component CodePoint)} (stands : ∀ c ∈ components, c.Stands nt) :
    List.Forall₂ SlashAlike (components.foldl nt.push buffer)
      (other ++ joinNames (components.map Component.written)) := by
  cases components with
  | nil => simpa [joinNames] using alike
  | cons c components =>
    rw [foldl_push_open free (.inr long) stands, List.map_cons, joinNames_cons, ← List.append_assoc]
    exact List.rel_append (List.rel_append alike (slashAlike_refl _)) (flatMap_slashAlike _)

theorem push_root_letter (x : CodePoint) : nt.push [x, colon] .root = [x, colon, backslash] := by
  rw [push, splitDrive_letter]
  rfl

theorem join_onDrive (x : CodePoint) {components : List (Component CodePoint)}
    (stands : ∀ c ∈ components, c.Stands nt) :
    List.Forall₂ SlashAlike (nt.join (.drive [x, colon] :: .root :: components))
      (x :: colon :: slash :: joinNames (components.map Component.written)) := by
  have separators : SlashAlike backslash slash := by decide
  have root : List.Forall₂ SlashAlike [x, colon, backslash] [x, colon, slash] :=
    .cons (.refl x) (.cons (.refl colon) (.cons separators .nil))
  have free : nt.needsSeparator [x, colon, backslash] = false := by
    simp [needsSeparator, isSeparator]
  have written := foldl_push_slashAlike root free (by simp) stands
  rw [← push_root_letter] at written
  exact written

theorem join_bareDrive (x : CodePoint) {components : List (Component CodePoint)}
    (stands : ∀ c ∈ components, c.Stands nt) :
    List.Forall₂ SlashAlike (nt.join (.drive [x, colon] :: components))
      (x :: colon :: joinNames (components.map Component.written)) := by
  have free : nt.needsSeparator [x, colon] = false := by simp [needsSeparator, isDriveLetter]
  exact foldl_push_slashAlike (slashAlike_refl _) free (Nat.le_refl 2) stands

end Joining

end Flavor

def Key.IsRootedOn (drive : UInt8) (key : Key) : Prop :=
  [slash] <+: key ∨ [drive, colon, slash] <+: key

namespace Flavor

section Rooted

variable {path : Text} {components : List (Component CodePoint)} {key : Key}

theorem descent_stands (bare : (nt.splitDrive path).1 = []) :
    ∀ c ∈ (Course.of (nt.components path)).descent, c.Stands nt := by
  intro c member
  rcases stands_of_bare bare (Course.mem_of_mem_descent member) with rfl | stands
  · obtain ⟨text, _, never⟩ := List.mem_map.1 member
    cases never
  · exact stands

theorem backslash_not_mem_joinNames (stands : ∀ c ∈ components, c.Stands nt) :
    backslash ∉ joinNames (components.map Component.written) := by
  intro member
  have apart : ¬(backslash : CodePoint) = slash := by decide
  obtain ⟨name, inside, a, letter, rfl⟩ := (exists_mem_joinNames apart).1 ⟨_, member, rfl⟩
  obtain ⟨c, here, rfl⟩ := List.mem_map.1 inside
  have clear := (stands c here).clear _ letter
  cases clear

theorem backslash_not_mem_rooted (stands : ∀ c ∈ components, c.Stands nt) :
    backslash ∉ slash :: joinNames (components.map Component.written) := by
  have apart : (backslash : CodePoint) ≠ slash := by decide
  simpa [apart] using backslash_not_mem_joinNames stands

theorem keyOf_slashAlike {other : Text} (alike : List.Forall₂ SlashAlike path other)
    (keyed : nt.keyOf path = .ok key) : nt.keyOf other = .ok key := by
  rcases keyOf_alike alike with ⟨same, one, two⟩ | ⟨_, _, one, _⟩
  · rw [keyed] at one
    cases one
    exact two
  · rw [keyed] at one
    cases one

theorem slash_of_root (leads : ∀ c ∈ components, c.LeadsOn)
    (keyed : nt.keyOf (nt.join (.root :: components)) = .ok key) : [slash] <+: key :=
  prefix_of_keyOf (show Text.encode? [backslash] = some [backslash] by decide)
    (prefix_foldl_push nt [backslash] leads) keyed

variable {x : Char} (letter : x.isAlpha = true) (stands : ∀ c ∈ components, c.Stands nt)

include letter stands

theorem drive_of_root
    (keyed : nt.keyOf (nt.join (.drive [.scalar x, colon] :: .root :: components)) = .ok key) :
    [PathLetter.ascii x, colon, slash] <+: key := by
  obtain ⟨more, encoded, rfl⟩ := (keyOf_letter letter (backslash_not_mem_rooted stands)).1
    (keyOf_slashAlike (join_onDrive _ stands) keyed)
  obtain ⟨first, rest, head, _, rfl⟩ := Text.encode?_cons.1 encoded
  cases head
  exact List.prefix_append [PathLetter.ascii x, colon, slash] rest

/-- Behind the bare drive the key goes on with a name or not at all. -/
theorem bare_of_drive
    (keyed : nt.keyOf (nt.join (.drive [.scalar x, colon] :: components)) = .ok key) :
    ¬key.IsRootedOn (PathLetter.ascii x) ∧
      ∃ more, Text.encode? (joinNames (components.map Component.written)) = some more ∧
        key = PathLetter.ascii x :: colon :: more := by
  obtain ⟨more, encoded, rfl⟩ := (keyOf_letter letter (backslash_not_mem_joinNames stands)).1
    (keyOf_slashAlike (join_bareDrive _ stands) keyed)
  refine ⟨?_, more, encoded, rfl⟩
  rintro (⟨rest, slashed⟩ | ⟨rest, rooted⟩)
  · exact (ascii_of_isAlpha letter).2.1 (List.cons.inj slashed).1.symm
  · have behind : more = slash :: rest := by simpa using rooted.symm
    rw [behind] at encoded
    obtain ⟨names, joined, _⟩ := Text.eq_cons_of_encode? (by decide) encoded
    cases components with
    | nil => cases joined
    | cons c components =>
      obtain ⟨_, nonempty, clear⟩ := stands c List.mem_cons_self
      rw [List.map_cons, joinNames_cons] at joined
      cases written : c.written with
      | nil => exact nonempty written
      | cons a letters =>
        rw [written, List.cons_append, List.cons.injEq] at joined
        have separates := clear a (written ▸ List.mem_cons_self)
        rw [joined.1] at separates
        cases separates

end Rooted

/-- From a directory on a drive a path without a drive has a rooted key if and only if it starts at a
root or its `..` do not climb just one level more than the directory has. If they do, the root of the
drive is lost: the key is the bare drive, and behind it stand the names that the path goes down. -/
theorem rooted_iff_climbs {x : Char} (letter : x.isAlpha = true) {s : CodePoint}
    (separates : nt.isSeparator s = true) {rest text : Text} {path cwd : GivenPath}
    (read : path.asText = .ok text) (readCwd : cwd.asText = .ok (.scalar x :: colon :: s :: rest))
    (bare : (nt.splitDrive text).1 = []) {key : Key} (resolved : nt.resolveGiven path cwd = .ok key) :
    (key.IsRootedOn (PathLetter.ascii x) ↔ nt.startsRooted text = true ∨
        (Course.of (nt.components text)).climbs ≠ (levels rest).length + 1) ∧
      (¬key.IsRootedOn (PathLetter.ascii x) → ∃ more,
        Text.encode? (joinNames (Course.of (nt.components text)).names.reverse) = some more ∧
          key = PathLetter.ascii x :: colon :: more) := by
  rw [resolveGiven_ok read readCwd] at resolved
  cases rooted : nt.startsRooted text with
  | true =>
    have leads : ∀ c ∈ (Course.of (nt.components text)).descent, c.LeadsOn := fun c member =>
      (descent_stands bare c member).leads
    rw [absolutize_bare_rooted bare rooted] at resolved
    have begins := slash_of_root leads resolved
    exact ⟨⟨fun _ => .inl rfl, fun _ => .inl begins⟩, fun bereft => absurd (.inl begins) bereft⟩
  | false =>
    have goes := descent_stands bare
    rw [absolutize_footing bare rooted _ separates, footing] at resolved
    by_cases few : (Course.of (nt.components text)).climbs ≤ (levels rest).length
    · rw [if_pos few] at resolved
      have stands : ∀ c ∈ (levels rest).take ((levels rest).length -
          (Course.of (nt.components text)).climbs) ++ (Course.of (nt.components text)).descent,
          c.Stands nt := by
        intro c member
        rcases List.mem_append.1 member with above | below
        · exact stands_of_mem_levels (List.mem_of_mem_take above)
        · exact goes c below
      have begins := drive_of_root letter stands resolved
      exact ⟨⟨fun _ => .inr (by omega), fun _ => .inr begins⟩,
        fun bereft => absurd (.inr begins) bereft⟩
    · rw [if_neg few] at resolved
      by_cases one : (Course.of (nt.components text)).climbs = (levels rest).length + 1
      · rw [if_pos one] at resolved
        obtain ⟨bereft, more, written, same⟩ := bare_of_drive letter goes resolved
        rw [Course.descent, written_names] at written
        exact ⟨⟨fun rooted => absurd rooted bereft, fun other => absurd one (other.resolve_left Bool.false_ne_true)⟩,
          fun _ => ⟨more, written, same⟩⟩
      · rw [if_neg one] at resolved
        have begins := slash_of_root (fun c member => (goes c member).leads) resolved
        exact ⟨⟨fun _ => .inr one, fun _ => .inl begins⟩, fun bereft => absurd (.inl begins) bereft⟩

/-- From the directory `a` one level up is the root of the drive. -/
theorem one_level_up :
    ('C'.isAlpha = true ∧ nt.isSeparator (backslash : CodePoint) = true ∧
      (nt.splitDrive (Text.ofString "..\\x")).1 = [] ∧
      nt.resolveGiven (.text (Text.ofString "..\\x")) (.text (Text.ofString "C:\\a")) =
        .ok (Bytes.ofString "C:/x")) ∧
      Key.IsRootedOn (PathLetter.ascii 'C') (Bytes.ofString "C:/x") := by
  have bare : (nt.splitDrive (Text.ofString "..\\x")).1 = [] := by decide
  have resolved : nt.resolveGiven (.text (Text.ofString "..\\x")) (.text (Text.ofString "C:\\a")) =
      .ok (Bytes.ofString "C:/x") := by decide
  refine ⟨⟨by decide, by decide, bare, resolved⟩, ?_⟩
  have rooted := (rooted_iff_climbs (show 'C'.isAlpha = true by decide)
    (show nt.isSeparator (backslash : CodePoint) = true by decide) rfl rfl bare resolved).1
  exact rooted.2 (.inr (by decide))

/-- One level more is the drive without its root, and a name behind it is relative to the drive. -/
theorem one_level_too_many :
    ((nt.splitDrive (Text.ofString "..\\..")).1 = [] ∧
        nt.resolveGiven (.text (Text.ofString "..\\..")) (.text (Text.ofString "C:\\a")) =
          .ok (Bytes.ofString "C:") ∧
        ¬Key.IsRootedOn (PathLetter.ascii 'C') (Bytes.ofString "C:")) ∧
      (nt.splitDrive (Text.ofString "..\\..\\x")).1 = [] ∧
        nt.resolveGiven (.text (Text.ofString "..\\..\\x")) (.text (Text.ofString "C:\\a")) =
          .ok (Bytes.ofString "C:x") ∧
        ¬Key.IsRootedOn (PathLetter.ascii 'C') (Bytes.ofString "C:x") := by
  unfold Key.IsRootedOn
  exact ⟨⟨by decide, by decide, by decide⟩, by decide, by decide, by decide⟩

end Flavor

end Loadable
