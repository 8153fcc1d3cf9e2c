import Loadable.Path.Flavor
/-!
Drives of `nt` paths: `C:`, a share `\\server\share`, a device `\\.\device` or `\\?\device`, and
`\\?\UNC\server\share`. A share that is not complete takes the whole path.
-/
namespace Loadable

variable {α : Type} [DecidableEq α] [PathLetter α]

def isLetter (upper lower : Char) (a : α) : Bool :=
  a = PathLetter.ascii upper ∨ a = PathLetter.ascii lower

/-- The path starts with `\\?\UNC\`, in either slash and either case. -/
def isVerbatimShare : List α → Bool
  | s₁ :: s₂ :: q :: s₃ :: u :: n :: c :: s₄ :: _ =>
    [s₁, s₂, s₃, s₄].all Flavor.nt.isSeparator && q = PathLetter.ascii '?' &&
      isLetter 'U' 'u' u && isLetter 'N' 'n' n && isLetter 'C' 'c' c
  | _ => false

/-- `lead` letters belong to the drive in any case; a server, a separator and a share follow. -/
def splitShare (lead : Nat) (path : List α) : List α × List α :=
  let body := path.drop lead
  let server := body.takeWhile fun a => !Flavor.nt.isSeparator a
  match body.drop server.length with
  | [] => (path, [])
  | s :: afterServer =>
    let share := afterServer.takeWhile fun a => !Flavor.nt.isSeparator a
    match afterServer.drop share.length with
    | [] => (path, [])
    | rest => (path.take lead ++ server ++ s :: share, rest)

namespace Flavor

def splitDrive : Flavor → List α → List α × List α
  | posix, path => ([], path)
  | nt, a :: b :: path =>
    if nt.isSeparator a ∧ nt.isSeparator b then
      splitShare (if isVerbatimShare (a :: b :: path) then 8 else 2) (a :: b :: path)
    else if b = colon then ([a, b], path)
    else ([], a :: b :: path)
  | nt, path => ([], path)

end Flavor

/-- A drive that names a share or a device is rooted whatever follows it. -/
def isShare : List α → Bool
  | a :: b :: _ :: _ => Flavor.nt.isSeparator a && Flavor.nt.isSeparator b
  | _ => false

/-- A drive letter alone: what is joined to it follows without a separator. -/
def isDriveLetter : List α → Bool
  | [_, b] => b = colon
  | _ => false

end Loadable
