import Loadable.Hook
import Loadable.Session.Event
/-!
The calls a run has seen through: requires and loads, and the sources and hooks that they run.
-/
namespace Loadable

inductive Call where
  /-- The feature's key is the one computed when the require starts. -/
  | require (feature : Key)
  | load (key : Key)
  | hook (key : Key) (hook : Hook)
  | source (filename : Text) (data : Bytes)
  deriving DecidableEq

/-- The calls that have ended, in order of return, each with those that ended while it ran. -/
inductive History where
  | nothing
  | call (earlier : History) (made : Call) (within : History) (ended : Except Raised Answer)

namespace History

def append (h : History) : History → History
  | nothing => h
  | call earlier made within ended => call (h.append earlier) made within ended

instance : Append History := ⟨append⟩

@[simp] theorem append_nothing (h : History) : h ++ nothing = h := rfl

@[simp] theorem append_call (h earlier : History) (made : Call) (within : History)
    (ended : Except Raised Answer) :
    h ++ call earlier made within ended = call (h ++ earlier) made within ended := rfl

@[simp] theorem nothing_append (h : History) : nothing ++ h = h := by
  induction h with
  | nothing => rfl
  | call earlier made within ended ih => rw [append_call, ih]

theorem append_assoc (first second third : History) :
    first ++ second ++ third = first ++ (second ++ third) := by
  induction third with
  | nothing => rfl
  | call earlier made within ended ih => simp only [append_call, ih]

theorem sizeOf_append (first second : History) : sizeOf first ≤ sizeOf (first ++ second) := by
  induction second with
  | nothing => exact Nat.le_refl _
  | call earlier made within ended ih =>
    rw [append_call, call.sizeOf_spec]
    omega

theorem append_call_ne (h earlier : History) (made : Call) (within : History)
    (ended : Except Raised Answer) : h ++ call earlier made within ended ≠ h := by
  intro same
  have longer := sizeOf_append h earlier
  have size := congrArg sizeOf same
  rw [append_call, call.sizeOf_spec] at size
  omega

theorem append_left_cancel {h first second : History} (same : h ++ first = h ++ second) :
    first = second := by
  induction first generalizing second with
  | nothing =>
    cases second with
    | nothing => rfl
    | call earlier made within ended => exact absurd same.symm (append_call_ne _ _ _ _ _)
  | call earlier made within ended ih =>
    cases second with
    | nothing => exact absurd same (append_call_ne _ _ _ _ _)
    | call earlier' made' within' ended' =>
      rw [append_call, append_call] at same
      injection same with sameEarlier sameMade sameWithin sameEnded
      rw [ih sameEarlier, sameMade, sameWithin, sameEnded]

end History

end Loadable
