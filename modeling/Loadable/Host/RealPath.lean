import Loadable.Fault.Basic
import Loadable.Host.Walk
/-!
The canonical path of what a path names: links are resolved as far as they exist, missing names are
kept, and a link that leads back to itself is left in place. A name with a zero byte in it cannot be
looked up. A loop is found when the same spelling of a link is met again, so a link that is met under
other spellings first is resolved once for each.
-/
namespace Loadable

/-- What became of the links met on the way: the path each led to, or nothing while its own target
is still being resolved. -/
abbrev LinkTrail := List (Bytes × Option Bytes)

/-- A path resolved so far. It is `closed` unless a loop of links cut it short. -/
structure Resolved where
  path : Bytes
  closed : Bool
  trail : LinkTrail

namespace Host

/-- One level up, by the letters; a relative path may climb above where it began. -/
def climb (path : Bytes) : Bytes :=
  if path = [] then [dot, dot]
  else
    let (head, last) := splitLast path
    if last = [dot, dot] then joinPath (joinPath head [dot, dot]) [dot, dot] else head

/-- Adds names to a resolved path; `jump` resolves the target of a link, coming from the link's
directory. Behind a loop nothing is looked up any more. -/
def resolveWith (host : Host) (jump : LinkTrail → Bytes → Bytes → Except Mishap Resolved)
    (trail : LinkTrail) (path : Bytes) : List Bytes → Except Mishap Resolved
  | [] => .ok ⟨path, true, trail⟩
  | name :: rest =>
    if name = [] ∨ name = [dot] then resolveWith host jump trail path rest
    else if name = [dot, dot] then resolveWith host jump trail (climb path) rest
    else if hasNul name then .error .nulInPath
    else
      let here := joinPath path name
      match host.readLink? here with
      | none => resolveWith host jump trail here rest
      | some target =>
        match trail.find? (·.1 = here) with
        | some (_, some known) => resolveWith host jump trail known rest
        | some (_, none) => .ok ⟨joinPath here (joinNames rest), false, trail⟩
        | none =>
          match jump ((here, none) :: trail) path target with
          | .error mishap => .error mishap
          | .ok r =>
            if r.closed then resolveWith host jump ((here, some r.path) :: r.trail) r.path rest
            else .ok ⟨joinPath r.path (joinNames rest), false, r.trail⟩

def resolveLinks (host : Host) : (depth : Nat) → LinkTrail → Bytes → Bytes → Except Mishap Resolved
  | 0, _, _, _ => .error .linksTooDeep
  | depth + 1, trail, path, target =>
    match target with
    | [] => .ok ⟨path, true, trail⟩
    | a :: rest =>
      if a = slash then
        host.resolveWith (host.resolveLinks depth) trail [slash] (splitAt (· = slash) rest)
      else host.resolveWith (host.resolveLinks depth) trail path (splitAt (· = slash) (a :: rest))

def absolute (host : Host) (path : Bytes) : Except Mishap Bytes :=
  if path.head? = some slash then .ok (absolutePath [slash] path)
  else match host.cwdPath with
    | .ok cwd => .ok (absolutePath cwd path)
    | .error failure => .error (.host failure)

/-- How many targets are resolved inside one another. Neither the nodes nor the length of the path
bound them: a relative link that climbs above the root is spelled longer each time it is met. -/
def linkDepth : Nat := 985

def realPath (host : Host) (path : Bytes) : Except Mishap Bytes :=
  match host.resolveLinks linkDepth [] [] path with
  | .ok r => host.absolute r.path
  | .error mishap => .error mishap

end Host

end Loadable
