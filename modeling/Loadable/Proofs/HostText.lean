import Loadable.Proofs.Keys
import Loadable.Proofs.Likeness
/-!
Bytes read as host text and written back. Every byte string is the bytes of its own text, so a key can
be given back to the store as a path. A text and its bytes are cut alike by slashes, so they have the
same components.
-/
namespace Loadable

theorem CodePoint.utf8EncodeChar_ascii {c : Char} (ascii : c.toNat < 0x80) :
    String.utf8EncodeChar c = [PathLetter.ascii c] := by
  have small : c.toNat ≤ 0x7f := by omega
  exact if_pos small

namespace Bytes

theorem leadingChar?_eq_some {c : Char} {bytes : Bytes} (leads : leadingChar? bytes = some c) :
    ∃ rest, bytes = String.utf8EncodeChar c ++ rest := by
  obtain ⟨more, whole⟩ := ByteArray.exists_of_utf8DecodeChar?_eq_some leads
  have taken : bytes.take 4 = String.utf8EncodeChar c ++ more.data.toList := by
    have listed := congrArg (fun array => array.data.toList) whole
    simpa using listed
  exact ⟨more.data.toList ++ bytes.drop 4, by
    rw [← List.append_assoc, ← taken, List.take_append_drop]⟩

theorem leadingChar?_append (c : Char) (rest : Bytes) :
    leadingChar? (String.utf8EncodeChar c ++ rest) = some c := by
  have short : (String.utf8EncodeChar c).length ≤ 4 := by
    rw [String.length_utf8EncodeChar]
    exact c.utf8Size_le_four
  rw [leadingChar?, List.take_append, List.take_of_length_le short, List.toByteArray_append]
  exact ByteArray.utf8DecodeChar?_utf8EncodeChar_append

theorem le_of_leadingChar?_eq_none {b : UInt8} {bytes : Bytes}
    (stray : leadingChar? (b :: bytes) = none) : 0x80 ≤ b.toNat := by
  by_contra small
  have valid : Nat.isValidChar b.toNat := by
    left
    omega
  have number : (Char.ofNat b.toNat).toNat = b.toNat := by
    rw [Char.ofNat, dif_pos valid]
    rfl
  have single : String.utf8EncodeChar (Char.ofNat b.toNat) = [b] := by
    rw [CodePoint.utf8EncodeChar_ascii (by omega)]
    change [(Char.ofNat b.toNat).toNat.toUInt8] = [b]
    rw [number, Nat.toUInt8_eq, UInt8.ofNat_toNat]
  have leads := leadingChar?_append (Char.ofNat b.toNat) bytes
  rw [single, List.singleton_append, stray] at leads
  cases leads

end Bytes

namespace CodePoint

theorem encode?_ofStrayByte {b : UInt8} (large : 0x80 ≤ b.toNat) :
    (ofStrayByte b).encode? = some [b] := by
  have bound := b.toNat_lt
  have carried : 0x480 ≤ 0x400 + b.toNat ∧ 0x400 + b.toNat < 0x500 := by omega
  simp only [ofStrayByte, encode?, if_pos carried, Nat.add_sub_cancel_left, Nat.toUInt8_eq,
    UInt8.ofNat_toNat]

end CodePoint

theorem rel_toList {α β : Type} {R : α → β → Prop} {o : Option α} {p : Option β}
    (related : Option.Rel R o p) : List.Forall₂ R o.toList p.toList := by
  cases related with
  | none => exact .nil
  | some same => exact .cons same .nil

theorem splitAt_clear_append {α : Type} {isSeparator : α → Bool} {front : List α}
    (clear : ∀ a ∈ front, isSeparator a = false) (path : List α) :
    splitAt isSeparator (front ++ path) = (splitAt isSeparator path).modifyHead (front ++ ·) := by
  induction front with
  | nil =>
    cases pieces : splitAt isSeparator path with
    | nil => exact absurd pieces (splitAt_ne_nil isSeparator path)
    | cons piece pieces => simp [pieces]
  | cons a front ih =>
    have rest : ∀ b ∈ front, isSeparator b = false := fun b member =>
      clear b (List.mem_cons_of_mem a member)
    rw [List.cons_append, splitAt, clear a List.mem_cons_self, ih rest]
    cases pieces : splitAt isSeparator path with
    | nil => exact absurd pieces (splitAt_ne_nil isSeparator path)
    | cons piece pieces => rfl

namespace Text

theorem encode?_decodeFrom (skip : Nat) (bytes : Bytes) :
    encode? (decodeFrom (fun b => [CodePoint.ofStrayByte b]) skip bytes) =
      some (bytes.drop skip) := by
  induction bytes generalizing skip with
  | nil => simp [decodeFrom, encode?]
  | cons b bytes ih =>
    cases skip with
    | succ skip => exact ih skip
    | zero =>
      rw [decodeFrom]
      cases leads : Bytes.leadingChar? (b :: bytes) with
      | none =>
        have stray := CodePoint.encode?_ofStrayByte (Bytes.le_of_leadingChar?_eq_none leads)
        exact encode?_cons.2 ⟨[b], bytes, stray, ih 0, rfl⟩
      | some c =>
        obtain ⟨rest, whole⟩ := Bytes.leadingChar?_eq_some leads
        have size : (String.utf8EncodeChar c).length = c.utf8Size := String.length_utf8EncodeChar c
        have later : bytes.drop (c.utf8Size - 1) = rest := by
          have dropped : (b :: bytes).drop c.utf8Size = rest := by
            rw [whole, ← size, List.drop_left]
          rwa [← Nat.sub_add_cancel c.utf8Size_pos, List.drop_succ_cons] at dropped
        exact encode?_cons.2 ⟨_, rest, rfl, (ih _).trans (congrArg some later), whole⟩

/-- Nothing is lost when bytes are read as text. -/
theorem encode?_decode (bytes : Bytes) : encode? (decode bytes) = some bytes :=
  encode?_decodeFrom 0 bytes

theorem splitAt_encode? {t : Text} {bytes : Bytes} (encoded : t.encode? = some bytes) :
    List.Forall₂ (fun piece part => encode? piece = some part)
      (splitAt Flavor.posix.isSeparator t) (splitAt Flavor.posix.isSeparator bytes) := by
  induction t generalizing bytes with
  | nil =>
    cases encoded
    exact .cons rfl .nil
  | cons c t ih =>
    obtain ⟨first, rest, head, tail, rfl⟩ := encode?_cons.1 encoded
    have later := ih tail
    by_cases separates : c = slash
    · subst separates
      cases head
      exact .cons rfl later
    · have clear : slash ∉ first := fun member =>
        separates (CodePoint.ascii_of_mem_encode? head member (by decide)).1
      have front : ∀ a ∈ [c], Flavor.posix.isSeparator a = false :=
        posix_clear fun member => separates (List.mem_singleton.1 member).symm
      rw [← List.singleton_append, splitAt_clear_append front,
        splitAt_clear_append (posix_clear clear)]
      generalize splitAt Flavor.posix.isSeparator t = pieces at later
      generalize splitAt Flavor.posix.isSeparator rest = parts at later
      cases later with
      | nil => exact .nil
      | cons same others => exact .cons (encode?_cons.2 ⟨first, _, head, same, rfl⟩) others

variable {t : Text} {bytes : Bytes}

theorem spells_iff (encoded : t.encode? = some bytes) (chars : List Char)
    (ascii : ∀ c ∈ chars, c.toNat < 0x80) :
    bytes = chars.map PathLetter.ascii ↔ t = chars.map PathLetter.ascii := by
  induction chars generalizing t bytes with
  | nil =>
    constructor
    · rintro rfl
      exact eq_nil_of_encode? encoded
    · rintro rfl
      exact (Option.some.inj encoded).symm
  | cons char chars ih =>
    have small := ascii char List.mem_cons_self
    have rest : ∀ c ∈ chars, c.toNat < 0x80 := fun c member => ascii c (List.mem_cons_of_mem char member)
    constructor
    · rintro rfl
      obtain ⟨later, rfl, tail⟩ := eq_cons_of_encode? small encoded
      rw [List.map_cons, (ih tail rest).1 rfl]
    · rintro rfl
      obtain ⟨first, more, head, tail, rfl⟩ := encode?_cons.1 encoded
      have single : first = [PathLetter.ascii char] :=
        (Option.some.inj head).symm.trans (CodePoint.utf8EncodeChar_ascii small)
      rw [single, (ih tail rest).2 rfl]
      rfl

theorem encode?_ascii {chars : List Char} (ascii : ∀ c ∈ chars, c.toNat < 0x80) :
    encode? (chars.map PathLetter.ascii) = some (chars.map PathLetter.ascii) := by
  induction chars with
  | nil => rfl
  | cons char chars ih =>
    have single := CodePoint.utf8EncodeChar_ascii (ascii char List.mem_cons_self)
    have head : CodePoint.encode? (PathLetter.ascii char) = some [PathLetter.ascii char] :=
      congrArg some single
    exact encode?_cons.2 ⟨_, _, head, ih fun c member => ascii c (List.mem_cons_of_mem char member), rfl⟩

theorem ofPiece_encode? (encoded : t.encode? = some bytes) (mayBeHere : Bool) :
    Option.Rel (fun c d => Component.encode? c = some d) (Component.ofPiece? mayBeHere t)
      (Component.ofPiece? mayBeHere bytes) := by
  have empty : bytes = [] ↔ t = [] := spells_iff encoded [] nofun
  have here : bytes = [dot] ↔ t = [dot] := spells_iff encoded ['.'] (by simp)
  have up : bytes = [dot, dot] ↔ t = [dot, dot] := spells_iff encoded ['.', '.'] (by simp)
  unfold Component.ofPiece?
  simp only [empty, here, up]
  split
  · exact .none
  split
  · cases mayBeHere with
    | true => exact .some rfl
    | false => exact .none
  split
  · exact .some rfl
  · exact .some (by simp [Component.encode?, encoded])

end Text

namespace Component

variable {components : List (Component CodePoint)} {others : List (Component UInt8)}
  {c : Component CodePoint} {d : Component UInt8}

/-- To be written in bytes is to be of the same kind, with a text that is written in bytes. -/
theorem encode?_iff_rel :
    c.encode? = some d ↔ Rel (fun text bytes => Text.encode? text = some bytes) c d := by
  constructor
  · intro same
    cases c with
    | drive text =>
      obtain ⟨bytes, encoded, rfl⟩ := Option.map_eq_some_iff.1 same
      exact .drive encoded
    | name text =>
      obtain ⟨bytes, encoded, rfl⟩ := Option.map_eq_some_iff.1 same
      exact .name encoded
    | root =>
      cases same
      exact .root
    | here =>
      cases same
      exact .here
    | up =>
      cases same
      exact .up
  · intro alike
    cases alike with
    | drive encoded => simp [encode?, encoded]
    | name encoded => simp [encode?, encoded]
    | _ => rfl

theorem encode?_written (same : c.encode? = some d) :
    Text.encode? c.written = some d.written := by
  cases encode?_iff_rel.1 same with
  | drive encoded => exact encoded
  | name encoded => exact encoded
  | _ => rfl

theorem joinNames_encode? (alike : List.Forall₂ (fun c d => c.encode? = some d) components others) :
    Text.encode? (joinNames (components.map written)) = some (joinNames (others.map written)) := by
  induction alike with
  | nil => rfl
  | cons first rest ih =>
    cases rest with
    | nil => exact encode?_written first
    | cons second rest =>
      exact Text.encode?_append.2 ⟨_, _, encode?_written first,
        Text.encode?_cons.2 ⟨[slash], _, rfl, ih, rfl⟩, rfl⟩

end Component

namespace Flavor

variable {components : List (Component CodePoint)} {others : List (Component UInt8)}

theorem write_encode? (alike : List.Forall₂ (fun c d => c.encode? = some d) components others) :
    Text.encode? (write components) = some (write others) := by
  have names := Component.joinNames_encode? alike
  cases alike with
  | nil => rfl
  | cons first rest =>
    cases Component.encode?_iff_rel.1 first with
    | root => exact Text.encode?_cons.2 ⟨[slash], _, rfl, Component.joinNames_encode? rest, rfl⟩
    | _ => exact names

variable {t : Text} {bytes : Bytes}

theorem startsRooted_encode? (encoded : t.encode? = some bytes) :
    posix.startsRooted bytes = posix.startsRooted t := by
  rw [Bool.eq_iff_iff, startsRooted_iff, startsRooted_iff]
  constructor
  · intro slashed
    obtain ⟨more, rfl⟩ := List.head?_eq_some_iff.1 slashed
    obtain ⟨rest, rfl, _⟩ := Text.eq_cons_of_encode? (by decide) encoded
    rfl
  · intro slashed
    obtain ⟨more, rfl⟩ := List.head?_eq_some_iff.1 slashed
    obtain ⟨first, rest, head, _, rfl⟩ := Text.encode?_cons.1 encoded
    cases head
    rfl

/-- A text has the components of its bytes. -/
theorem components_alike (encoded : t.encode? = some bytes) :
    List.Forall₂ (fun c d => Component.encode? c = some d) (posix.components t)
      (posix.components bytes) := by
  have pieces := Text.splitAt_encode? encoded
  rw [components_posix, components_posix, startsRooted_encode? encoded]
  refine List.rel_append ?_ ?_
  · cases posix.startsRooted t with
    | true => exact .cons rfl .nil
    | false => exact .nil
  · generalize splitAt posix.isSeparator t = texts at pieces
    generalize splitAt posix.isSeparator bytes = parts at pieces
    cases pieces with
    | nil => exact .nil
    | cons first others =>
      refine List.rel_append (rel_toList (Text.ofPiece_encode? first _)) (List.rel_filterMap ?_ others)
      intro piece part same
      exact Text.ofPiece_encode? same false

theorem components_encode? (encoded : t.encode? = some (slash :: bytes))
    (read : posix.components (slash :: bytes) = .root :: others) :
    ∃ components, posix.components t = .root :: components ∧
      List.Forall₂ (fun c d => c.encode? = some d) components others := by
  have alike := components_alike encoded
  rw [read] at alike
  generalize posix.components t = found at alike
  cases alike with
  | cons first rest =>
    cases Component.encode?_iff_rel.1 first with
    | root => exact ⟨_, rfl, rest⟩

end Flavor

end Loadable
