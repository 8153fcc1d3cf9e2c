import Loadable.Proofs.Components
import Loadable.Store.Basic
import Mathlib.Data.List.Forall2
/-!
Canonical keys of the `posix` flavor: a slash and names with slashes between them. Resolving against
an absolute directory without `..` gives no other keys. Text and bytes have the same components, so a
key lies below another one by its bytes exactly if it does by its components.
-/
namespace Loadable

theorem slash_ne_dot_text : (slash : CodePoint) ≠ dot := by decide

theorem slash_ne_dot_bytes : (slash : UInt8) ≠ dot := by decide

namespace CodePoint

theorem ascii_of_mem_utf8EncodeChar {c : Char} {b : UInt8} (member : b ∈ String.utf8EncodeChar c)
    (small : b.toNat < 0x80) : String.utf8EncodeChar c = [b] ∧ c.toNat = b.toNat := by
  have value : c.val.toNat = c.toNat := rfl
  by_cases ascii : c.toNat ≤ 0x7f
  · have single : String.utf8EncodeChar c = [UInt8.ofNat c.toNat] := if_pos ascii
    rw [single, List.mem_singleton] at member
    subst member
    refine ⟨single, ?_⟩
    rw [UInt8.toNat_ofNat']
    omega
  -- Every byte of a longer form has its highest bit set.
  · exfalso
    simp only [String.utf8EncodeChar, value, if_neg ascii] at member
    split at member
    case isTrue =>
      simp only [List.mem_cons, List.not_mem_nil, or_false] at member
      rcases member with rfl | rfl <;> rw [UInt8.toNat_ofNat'] at small <;> omega
    case isFalse =>
      split at member
      case isTrue =>
        simp only [List.mem_cons, List.not_mem_nil, or_false] at member
        rcases member with rfl | rfl | rfl <;> rw [UInt8.toNat_ofNat'] at small <;> omega
      case isFalse =>
        simp only [List.mem_cons, List.not_mem_nil, or_false] at member
        rcases member with rfl | rfl | rfl | rfl <;> rw [UInt8.toNat_ofNat'] at small <;> omega

variable {c : CodePoint} {bytes : Bytes}

theorem encode?_ne_nil (encoded : c.encode? = some bytes) : bytes ≠ [] := by
  cases c with
  | scalar char =>
    cases encoded
    exact String.utf8EncodeChar_ne_nil
  | surrogate n =>
    simp only [encode?, Option.ite_none_right_eq_some, Option.some.injEq] at encoded
    exact encoded.2 ▸ List.cons_ne_nil _ _

theorem ascii_of_mem_encode? {char : Char} (encoded : c.encode? = some bytes)
    (member : PathLetter.ascii char ∈ bytes) (ascii : char.toNat < 0x80) :
    c = PathLetter.ascii char ∧ bytes = [PathLetter.ascii char] := by
  have number : (PathLetter.ascii char : UInt8).toNat = char.toNat := by
    change char.toNat.toUInt8.toNat = char.toNat
    rw [Nat.toUInt8_eq, UInt8.toNat_ofNat']
    omega
  cases c with
  | scalar other =>
    cases encoded
    obtain ⟨single, same⟩ := ascii_of_mem_utf8EncodeChar member (by omega)
    refine ⟨?_, single⟩
    change scalar other = scalar char
    rw [Char.toNat_inj.1 (same.trans number)]
  | surrogate n =>
    simp only [encode?, Option.ite_none_right_eq_some, Option.some.injEq] at encoded
    obtain ⟨⟨low, high⟩, rfl⟩ := encoded
    rw [List.mem_singleton] at member
    rw [member, Nat.toUInt8_eq, UInt8.toNat_ofNat'] at number
    omega

end CodePoint

namespace Text

variable {s t : Text} {bytes : Bytes}

theorem encode?_cons {c : CodePoint} : encode? (c :: t) = some bytes ↔
    ∃ first rest, c.encode? = some first ∧ t.encode? = some rest ∧ bytes = first ++ rest := by
  simp only [encode?, Option.bind_eq_bind, Option.bind_eq_some_iff, Option.pure_def,
    Option.some.injEq]
  constructor
  · rintro ⟨first, head, rest, tail, rfl⟩
    exact ⟨first, rest, head, tail, rfl⟩
  · rintro ⟨first, rest, head, tail, rfl⟩
    exact ⟨first, head, rest, tail, rfl⟩

theorem encode?_append : encode? (s ++ t) = some bytes ↔
    ∃ first rest, s.encode? = some first ∧ t.encode? = some rest ∧ bytes = first ++ rest := by
  induction s generalizing bytes with
  | nil => simp [encode?]
  | cons c s ih =>
    rw [List.cons_append, encode?_cons]
    constructor
    · rintro ⟨head, tail, first, later, rfl⟩
      obtain ⟨front, rest, encoded, others, rfl⟩ := ih.1 later
      exact ⟨head ++ front, rest, encode?_cons.2 ⟨head, front, first, encoded, rfl⟩, others,
        (List.append_assoc _ _ _).symm⟩
    · rintro ⟨front, rest, encoded, others, rfl⟩
      obtain ⟨head, tail, first, later, rfl⟩ := encode?_cons.1 encoded
      exact ⟨head, tail ++ rest, first, ih.2 ⟨tail, rest, later, others, rfl⟩,
        List.append_assoc _ _ _⟩

theorem ascii_mem_of_encode? {char : Char} (ascii : char.toNat < 0x80)
    (encoded : t.encode? = some bytes) (member : PathLetter.ascii char ∈ bytes) :
    PathLetter.ascii char ∈ t := by
  induction t generalizing bytes with
  | nil =>
    cases encoded
    exact absurd member List.not_mem_nil
  | cons c t ih =>
    obtain ⟨first, rest, head, tail, rfl⟩ := encode?_cons.1 encoded
    rcases List.mem_append.1 member with here | later
    · rw [(CodePoint.ascii_of_mem_encode? head here ascii).1]
      exact List.mem_cons_self
    · exact List.mem_cons_of_mem c (ih tail later)

theorem encode?_ne_nil (encoded : t.encode? = some bytes) (nonempty : t ≠ []) : bytes ≠ [] := by
  cases t with
  | nil => exact absurd rfl nonempty
  | cons c t =>
    obtain ⟨first, rest, head, tail, rfl⟩ := encode?_cons.1 encoded
    exact fun empty => CodePoint.encode?_ne_nil head (List.append_eq_nil_iff.1 empty).1

theorem eq_cons_of_encode? {char : Char} (ascii : char.toNat < 0x80)
    (encoded : t.encode? = some (PathLetter.ascii char :: bytes)) :
    ∃ rest : Text, t = PathLetter.ascii char :: rest ∧ rest.encode? = some bytes := by
  cases t with
  | nil => cases encoded
  | cons c t =>
    obtain ⟨first, rest, head, tail, whole⟩ := encode?_cons.1 encoded
    cases first with
    | nil => exact absurd rfl (CodePoint.encode?_ne_nil head)
    | cons b first =>
      rw [List.cons_append, List.cons.injEq] at whole
      obtain ⟨rfl, rfl⟩ := whole
      obtain ⟨rfl, single⟩ := CodePoint.ascii_of_mem_encode? head List.mem_cons_self ascii
      rw [List.cons.injEq] at single
      obtain ⟨_, rfl⟩ := single
      exact ⟨t, rfl, tail⟩

theorem eq_nil_of_encode? (encoded : t.encode? = some []) : t = [] := by
  by_cases empty : t = []
  · exact empty
  · exact absurd rfl (encode?_ne_nil encoded empty)

theorem isName_of_encode? (name : IsName t) (encoded : t.encode? = some bytes) : IsName bytes where
  nonempty := encode?_ne_nil encoded name.nonempty
  clear := fun member => name.clear (ascii_mem_of_encode? (by decide) encoded member)
  notHere := by
    rintro rfl
    obtain ⟨rest, rfl, more⟩ := eq_cons_of_encode? (by decide) encoded
    exact name.notHere (by rw [eq_nil_of_encode? more]; rfl)
  notUp := by
    rintro rfl
    obtain ⟨rest, rfl, more⟩ := eq_cons_of_encode? (by decide) encoded
    obtain ⟨last, rfl, none⟩ := eq_cons_of_encode? (by decide) more
    exact name.notUp (by rw [eq_nil_of_encode? none]; rfl)

end Text

namespace Component

def encode? : Component CodePoint → Option (Component UInt8)
  | drive text => (Text.encode? text).map .drive
  | root => some .root
  | here => some .here
  | up => some .up
  | name text => (Text.encode? text).map .name

variable {c : Component CodePoint} {d : Component UInt8}

theorem plain_of_encode? (plain : c.Plain) (encoded : c.encode? = some d) : d.Plain := by
  cases c with
  | up =>
    cases encoded
    trivial
  | name text =>
    obtain ⟨bytes, found, rfl⟩ := Option.map_eq_some_iff.1 encoded
    exact Text.isName_of_encode? plain found
  | _ => exact plain.elim

theorem encode?_of_written {bytes : Bytes} (follows : Flavor.Follows c)
    (encoded : Text.encode? c.written = some bytes) :
    ∃ d : Component UInt8, c.encode? = some d ∧ d.written = bytes := by
  rcases follows with plain | rfl
  · cases c with
    | up => exact ⟨.up, rfl, Option.some.inj encoded⟩
    | name text => exact ⟨.name bytes, by simp [encode?, ← encoded, written], rfl⟩
    | _ => exact plain.elim
  · exact ⟨.here, rfl, Option.some.inj encoded⟩

theorem encode?_joinNames {components : List (Component CodePoint)} {bytes : Bytes}
    (follows : ∀ c ∈ components, Flavor.Follows c)
    (encoded : Text.encode? (joinNames (components.map written)) = some bytes) :
    ∃ others : List (Component UInt8), bytes = joinNames (others.map written) ∧
      List.Forall₂ (fun c d => c.encode? = some d) components others := by
  induction components generalizing bytes with
  | nil => exact ⟨[], (Option.some.inj encoded).symm, .nil⟩
  | cons c components ih =>
    have first := follows c List.mem_cons_self
    cases components with
    | nil =>
      obtain ⟨d, same, rfl⟩ := encode?_of_written first encoded
      exact ⟨[d], rfl, .cons same .nil⟩
    | cons next components =>
      rw [List.map_cons, List.map_cons, joinNames_cons_cons] at encoded
      obtain ⟨head, tail, front, behind, rfl⟩ := Text.encode?_append.1 encoded
      obtain ⟨separator, rest, slashed, more, rfl⟩ := Text.encode?_cons.1 behind
      obtain ⟨d, same, rfl⟩ := encode?_of_written first front
      obtain ⟨others, rfl, alike⟩ := ih (fun c member => follows c (List.mem_cons_of_mem _ member)) more
      cases slashed
      refine ⟨d :: others, ?_, .cons same alike⟩
      cases alike
      rfl

end Component

namespace Flavor

theorem plain_of_forall₂ {components : List (Component CodePoint)} {others : List (Component UInt8)}
    (alike : List.Forall₂ (fun c d => c.encode? = some d) components others)
    (plain : ∀ c ∈ components, c.Plain) : ∀ d ∈ others, d.Plain := by
  induction alike with
  | nil => exact fun d member => absurd member List.not_mem_nil
  | cons first rest ih =>
    intro d member
    rcases List.mem_cons.1 member with rfl | member
    · exact Component.plain_of_encode? (plain _ List.mem_cons_self) first
    · exact ih (fun c member => plain c (List.mem_cons_of_mem _ member)) d member

theorem up_mem_of_forall₂ {components : List (Component CodePoint)}
    {others : List (Component UInt8)}
    (alike : List.Forall₂ (fun c d => c.encode? = some d) components others)
    (member : .up ∈ others) : .up ∈ components := by
  induction alike with
  | nil => exact absurd member List.not_mem_nil
  | @cons c d _ _ first rest ih =>
    rcases List.mem_cons.1 member with rfl | later
    · cases c with
      | up => exact List.mem_cons_self
      | drive text => simp [Component.encode?] at first
      | name text => simp [Component.encode?] at first
      | root => cases first
      | here => cases first
    · exact List.mem_cons_of_mem c (ih later)

theorem settled_of_encode? {components : List (Component CodePoint)} {bytes : Bytes}
    (settled : Settled components) (encoded : Text.encode? (write components) = some bytes) :
    ∃ others : List (Component UInt8), Settled others ∧ bytes = write others ∧
      List.Forall₂ (fun c d => c.encode? = some d) components others := by
  cases settled with
  | rooted plain =>
    obtain ⟨front, rest, slashed, more, rfl⟩ := Text.encode?_cons.1 encoded
    obtain ⟨others, rfl, alike⟩ :=
      Component.encode?_joinNames (fun c member => .inl (plain c member)) more
    cases slashed
    exact ⟨.root :: others, .rooted (plain_of_forall₂ alike plain), rfl, .cons rfl alike⟩
  | here plain =>
    obtain ⟨others, rfl, alike⟩ := Component.encode?_joinNames (fun c member => by
      rcases List.mem_cons.1 member with rfl | member
      · exact .inr rfl
      · exact .inl (plain c member)) encoded
    cases alike with
    | cons first rest =>
      cases first
      exact ⟨_, .here (plain_of_forall₂ rest plain), rfl, .cons rfl rest⟩
  | bare plain =>
    rw [write_bare plain] at encoded
    obtain ⟨others, rfl, alike⟩ :=
      Component.encode?_joinNames (fun c member => .inl (plain c member)) encoded
    have settled := plain_of_forall₂ alike plain
    exact ⟨others, .bare settled, (write_bare settled).symm, alike⟩

theorem keyOf_posix {path : Text} {key : Key} :
    posix.keyOf path = .ok key ↔ Text.encode? path = some key := by
  unfold keyOf Text.encode
  cases Text.encode? path with
  | none => simp [Except.map]
  | some bytes => simp [Except.map, normalize]

theorem resolve_posix {path cwd : Text} {key : Key} :
    posix.resolve path cwd = .ok key ↔ Text.encode? (posix.absolutize path cwd) = some key :=
  keyOf_posix

/-- Whatever the working directory is, a resolved key is written so that it can be read back. -/
theorem settled_of_resolve {path cwd : Text} {key : Key}
    (resolved : posix.resolve path cwd = .ok key) :
    ∃ components : List (Component UInt8), Settled components ∧ key = write components := by
  obtain ⟨components, settled, written⟩ := absolutize_settled slash_ne_dot_text path cwd
  rw [resolve_posix, written] at resolved
  obtain ⟨others, settled, written, _⟩ := settled_of_encode? settled resolved
  exact ⟨others, settled, written⟩

end Flavor

/-- A slash and names with slashes between them. -/
def Key.IsCanonical (key : Key) : Prop :=
  ∃ place : Place, (∀ name ∈ place, IsName name) ∧ key = place.path

namespace Flavor

theorem write_names {place : Place} (names : ∀ name ∈ place, IsName name) :
    Settled (.root :: place.map .name) ∧ place.path = write (.root :: place.map .name) :=
  ⟨.rooted (plain_names names), (write_map_name place).symm⟩

/-- Against an absolute directory without `..` every key is canonical. -/
theorem canonical_of_resolve {path cwd : Text} {key : Key}
    (absolute : posix.isAbsolute cwd = true) (down : .up ∉ posix.components cwd)
    (resolved : posix.resolve path cwd = .ok key) : key.IsCanonical := by
  obtain ⟨rest, written, plain, climbs⟩ := absolutize_rooted slash_ne_dot_text path absolute
  rw [resolve_posix, written] at resolved
  obtain ⟨others, settled, rfl, alike⟩ := settled_of_encode? (.rooted plain) resolved
  cases alike with
  | @cons _ d _ others first alike =>
    cases first
    have below : .up ∉ others := by
      intro member
      exact down (climbs (up_mem_of_forall₂ alike member))
    obtain ⟨place, names, rfl⟩ := names_of_plain (plain_of_forall₂ alike plain) below
    exact ⟨place, names, (write_names names).2.symm⟩

/-- What lies below a place by its bytes lies below it by its components. -/
theorem isUnder_iff_components {place : Place} (names : ∀ name ∈ place, IsName name)
    (nonempty : place ≠ []) {components : List (Component UInt8)} (settled : Settled components) :
    Key.isUnder place.path (write components) = true ↔
      posix.components place.path <+: posix.components (write components) := by
  obtain ⟨settledPlace, writtenPlace⟩ := write_names names
  rw [components_write slash_ne_dot_bytes settled]
  have places : posix.components place.path = .root :: place.map .name := by
    rw [writtenPlace, components_write slash_ne_dot_bytes settledPlace]
  constructor
  · intro under
    simp only [Key.isUnder, Bool.or_eq_true, decide_eq_true_eq, List.isPrefixOf_iff_prefix] at under
    rcases under with same | ⟨rest, below⟩
    · have read := components_write slash_ne_dot_bytes settled
      rw [same] at read
      exact ⟨[], by rw [List.append_nil, read]⟩
    · have read := components_write slash_ne_dot_bytes settled
      rw [← below, List.append_assoc, List.singleton_append, Place.path, List.cons_append,
        components_rooted, splitAt_append (posix_separator_iff.2 rfl), List.filterMap_append,
        ← List.cons_append, ← components_rooted] at read
      exact ⟨_, read⟩
  · rintro ⟨more, rfl⟩
    rw [places, List.cons_append] at settled ⊢
    rw [write, List.map_append, written_names, joinNames_append nonempty]
    cases more with
    | nil => simp [Key.isUnder, Place.path]
    | cons c more =>
      simp only [Key.isUnder, Bool.or_eq_true, List.isPrefixOf_iff_prefix]
      exact .inr ⟨_, by simp [Place.path]; rfl⟩

end Flavor

theorem Store.ownKey_ok {s : Store} {path : GivenPath} {key : Key} :
    s.ownKey path = .ok key ↔
      ∃ text, path.asText = .ok text ∧ s.flavor.resolve text s.cwd = .ok key := by
  unfold ownKey
  cases path.asText with
  | error mishap => simp
  | ok text =>
    simp only [Except.ok.injEq, exists_eq_left']
    cases s.flavor.resolve text s.cwd <;> simp

end Loadable
