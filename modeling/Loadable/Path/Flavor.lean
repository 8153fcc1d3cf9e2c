import Loadable.Text.CodePoint
/-!
The two conventions for spelling paths, and the letters that matter to them. The letters are those
of any alphabet with ASCII in it, so that the same algebra runs on text and on bytes.
-/
namespace Loadable

/-- With `posix` only `/` separates components; with `nt` so does the backslash, and a drive may
stand in front. -/
inductive Flavor where
  | posix
  | nt
  deriving DecidableEq

variable {α : Type} [PathLetter α]

def slash : α := PathLetter.ascii '/'

def backslash : α := PathLetter.ascii '\\'

def dot : α := PathLetter.ascii '.'

def colon : α := PathLetter.ascii ':'

namespace Flavor

def name : Flavor → String
  | posix => "posix"
  | nt => "nt"

def host : Flavor := posix

def ofName? (t : Text) : Option Flavor :=
  if t = Text.ofString posix.name then some posix
  else if t = Text.ofString nt.name then some nt
  else none

variable [DecidableEq α]

def isSeparator : Flavor → α → Bool
  | posix, a => a = slash
  | nt, a => a = slash ∨ a = backslash

def separator : Flavor → α
  | posix => slash
  | nt => backslash

end Flavor

def splitAt (isSeparator : α → Bool) : List α → List (List α)
  | [] => [[]]
  | a :: path =>
    if isSeparator a then [] :: splitAt isSeparator path
    else match splitAt isSeparator path with
      | [] => [[a]]
      | piece :: pieces => (a :: piece) :: pieces

end Loadable
