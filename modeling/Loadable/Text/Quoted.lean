import Loadable.Text.Encoding
import Loadable.Text.Printable
/-!
Quoted text, as messages show a name: between single quotes, or double quotes when only single ones
stand inside; backslash, the quote and characters without a glyph are escaped.
-/
namespace Loadable

namespace CodePoint

def hexDigits (digits n : Nat) : Text :=
  let shown := Nat.toDigits 16 n
  (List.replicate (digits - shown.length) '0' ++ shown).map scalar

/-- The escape names the code point with two, four or eight hex digits, as few as it takes. -/
def escaped (c : CodePoint) : Text :=
  let n := c.toNat
  if n < 0x100 then '\\' :: 'x' :: hexDigits 2 n
  else if n < 0x10000 then '\\' :: 'u' :: hexDigits 4 n
  else '\\' :: 'U' :: hexDigits 8 n

def quotedIn (quote : Char) (c : CodePoint) : Text :=
  if c = scalar quote ∨ c = scalar '\\' then ['\\', c]
  else if c = scalar '\n' then ['\\', 'n']
  else if c = scalar '\t' then ['\\', 't']
  else if c = scalar '\r' then ['\\', 'r']
  else if c.isPrintable then [c]
  else c.escaped

end CodePoint

namespace Text

def quoted (t : Text) : Text :=
  let quote := if t.contains (.scalar '\x27') && !t.contains (.scalar '\x22') then '\x22' else '\x27'
  .scalar quote :: t.flatMap (CodePoint.quotedIn quote) ++ [.scalar quote]

def withoutSurrogates (t : Text) : Text :=
  t.flatMap fun c => if c.isSurrogate then c.escaped else [c]

namespace Unencodable

def reason (u : Unencodable) : Text :=
  let stretch : Text :=
    if u.past - u.first ≤ 1 then
      ("character '" : Text) ++ ((u.text.drop u.first).take 1).flatMap CodePoint.escaped ++
        ("' in position " : Text) ++ Text.ofNat u.first
    else ("characters in position " : Text) ++ Text.ofNat u.first ++ ("-" : Text) ++
      Text.ofNat (u.past - 1)
  ("'utf-8' codec can't encode " : Text) ++ stretch ++ (": surrogates not allowed" : Text)

end Unencodable

end Text

end Loadable
