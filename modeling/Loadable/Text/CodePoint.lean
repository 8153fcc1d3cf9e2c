/-!
Host text is a sequence of code points in which surrogates may stand alone, because a host file
name need not be valid UTF-8. Text carries such names, messages and log lines.
-/
namespace Loadable

/-- A Unicode scalar value, or the surrogate `U+D800 + offset` on its own. -/
inductive CodePoint where
  | scalar (c : Char)
  | surrogate (offset : Fin 0x800)
  deriving DecidableEq, Inhabited

abbrev Text := List CodePoint

abbrev Bytes := List UInt8

namespace CodePoint

instance : Coe Char CodePoint := ⟨scalar⟩

def toNat : CodePoint → Nat
  | scalar c => c.toNat
  | surrogate n => 0xD800 + n.val

/-- Numbers past the last code point give `U+FFFD`. -/
def ofNat (n : Nat) : CodePoint :=
  if h : n.isValidChar then scalar ⟨n.toUInt32, by
    simpa [UInt32.isValidChar, Nat.toUInt32, UInt32.toNat_ofNat_of_lt' (show n < 2 ^ 32 by
      rcases h with h | h <;> omega)] using h⟩
  else if h : n - 0xD800 < 0x800 then surrogate ⟨n - 0xD800, h⟩
  else scalar '\uFFFD'

def isSurrogate : CodePoint → Bool
  | scalar _ => false
  | surrogate _ => true

end CodePoint

namespace Text

def ofString (s : String) : Text := s.toList.map .scalar

instance : Coe String Text := ⟨ofString⟩

def toChars (t : Text) : List Char :=
  t.map fun
    | .scalar c => c
    | .surrogate _ => '\uFFFD'

def ofNat (n : Nat) : Text := ofString (toString n)

def ofInt (n : Int) : Text := ofString (toString n)

def hasPart (part : Text) : Text → Bool
  | [] => part.isEmpty
  | c :: t => part.isPrefixOf (c :: t) || hasPart part t

def joinWith (separator : Text) : List Text → Text
  | [] => []
  | [t] => t
  | t :: ts => t ++ separator ++ joinWith separator ts

end Text

namespace Bytes

def ofString (s : String) : Bytes := s.toList.flatMap String.utf8EncodeChar

end Bytes

/-- An alphabet that paths are spelled in: every ASCII character has a letter there. -/
class PathLetter (α : Type) where
  ascii : Char → α

instance : PathLetter CodePoint := ⟨.scalar⟩

instance : PathLetter UInt8 := ⟨fun c => c.toNat.toUInt8⟩

end Loadable
