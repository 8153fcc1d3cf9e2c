import Loadable.Text.CodePoint
/-!
Control sequences of terminals: an escape character and `[`, then parameters, then intermediate
characters, then one final character. Output that goes to no terminal is shown without them.
-/
namespace Loadable

namespace CodePoint

def isWithin (first last : Nat) (c : CodePoint) : Bool :=
  first ≤ c.toNat && c.toNat ≤ last

end CodePoint

namespace Text

/-- How many code points the control sequence at the start of a text has; none if there is none. -/
def controlSequence : Text → Nat
  | .scalar '\x1b' :: .scalar '[' :: t =>
    let parameters := t.takeWhile (CodePoint.isWithin 0x30 0x3F)
    let rest := t.drop parameters.length
    let intermediate := rest.takeWhile (CodePoint.isWithin 0x20 0x2F)
    match rest.drop intermediate.length with
    | [] => 0
    | final :: _ =>
      if final.isWithin 0x40 0x7E then 2 + parameters.length + intermediate.length + 1 else 0
  | _ => 0

def skipControlSequences : (skip : Nat) → Text → Text
  | _, [] => []
  | skip + 1, _ :: t => skipControlSequences skip t
  | 0, c :: t =>
    match controlSequence (c :: t) with
    | 0 => c :: skipControlSequences 0 t
    | length + 1 => skipControlSequences length t

def withoutControlSequences (t : Text) : Text :=
  skipControlSequences 0 t

end Text

end Loadable
