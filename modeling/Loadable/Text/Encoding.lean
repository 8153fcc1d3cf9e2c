import Loadable.Text.CodePoint
/-!
Host text and its bytes: UTF-8, where a byte `b ≥ 0x80` that belongs to no well-formed sequence is
carried as the surrogate `U+DC00 + b`. Every byte string has a text; a text has bytes unless it
holds a surrogate that carries no byte.
-/
namespace Loadable

namespace Bytes

def leadingChar? (bytes : Bytes) : Option Char :=
  (bytes.take 4).toByteArray.utf8DecodeChar? 0

end Bytes

namespace CodePoint

/-- The surrogate that carries a byte of no well-formed sequence. -/
def ofStrayByte (b : UInt8) : CodePoint :=
  surrogate ⟨0x400 + b.toNat, by have := b.toNat_lt; omega⟩

def encode? : CodePoint → Option Bytes
  | scalar c => some (String.utf8EncodeChar c)
  | surrogate n => if 0x480 ≤ n.val ∧ n.val < 0x500 then some [(n.val - 0x400).toUInt8] else none

end CodePoint

namespace Text

def decodeFrom (stray : UInt8 → Text) : (skip : Nat) → Bytes → Text
  | _, [] => []
  | skip + 1, _ :: bytes => decodeFrom stray skip bytes
  | 0, b :: bytes =>
    match Bytes.leadingChar? (b :: bytes) with
    | some c => .scalar c :: decodeFrom stray (c.utf8Size - 1) bytes
    | none => stray b ++ decodeFrom stray 0 bytes

/-- The text of a host byte string; total and without loss. -/
def decode (bytes : Bytes) : Text :=
  decodeFrom (fun b => [CodePoint.ofStrayByte b]) 0 bytes

def encode? : Text → Option Bytes
  | [] => some []
  | c :: t => do
    let head ← c.encode?
    let tail ← encode? t
    return head ++ tail

/-- A stretch of text that has no bytes: positions `first` up to but not including `past`. -/
structure Unencodable where
  text : Text
  first : Nat
  past : Nat
  deriving DecidableEq

def firstUnencodable (t : Text) : Unencodable :=
  let before := t.takeWhile fun c => c.encode?.isSome
  let run := (t.drop before.length).takeWhile CodePoint.isSurrogate
  ⟨t, before.length, before.length + run.length⟩

def encode (t : Text) : Except Unencodable Bytes :=
  match t.encode? with
  | some bytes => .ok bytes
  | none => .error t.firstUnencodable

def hexByte (b : UInt8) : Text :=
  ((Nat.toDigits 16 (0x100 + b.toNat)).drop 1).map .scalar

/-- The bytes in ASCII: one that is not printable there, or is `%`, is written `%` and two hex
digits. -/
def percentEscaped (bytes : Bytes) : Text :=
  bytes.flatMap fun b =>
    if 0x20 ≤ b ∧ b ≤ 0x7E ∧ b ≠ 0x25 then [.scalar (Char.ofNat b.toNat)]
    else .scalar '%' :: hexByte b

/-- The text shown to people: a byte of no well-formed sequence is written `\xNN`. -/
def display (bytes : Bytes) : Text :=
  decodeFrom (fun b => .scalar '\\' :: .scalar 'x' :: hexByte b) 0 bytes

end Text

end Loadable
