import Loadable.Path.Key
/-!
Finite maps from canonical keys. A map holds each key at most once; its order means nothing.
-/
namespace Loadable

structure KeyMap (V : Type) where
  entries : List (Key × V) := []
  deriving DecidableEq

namespace KeyMap

variable {V : Type}

def get? (m : KeyMap V) (key : Key) : Option V :=
  (m.entries.find? (·.1 = key)).map (·.2)

def contains (m : KeyMap V) (key : Key) : Bool :=
  (m.get? key).isSome

def erase (m : KeyMap V) (key : Key) : KeyMap V :=
  ⟨m.entries.filter (·.1 ≠ key)⟩

def insert (m : KeyMap V) (key : Key) (v : V) : KeyMap V :=
  ⟨(key, v) :: (m.erase key).entries⟩

def size (m : KeyMap V) : Nat :=
  m.entries.length

@[simp] theorem get?_empty (key : Key) : (⟨[]⟩ : KeyMap V).get? key = none := rfl

theorem get?_erase (m : KeyMap V) (key other : Key) :
    (m.erase key).get? other = if other = key then none else m.get? other := by
  simp only [get?, erase, List.find?_filter]
  by_cases h : other = key
  · subst h
    have never : ∀ e ∈ m.entries, ¬(decide (decide (e.1 ≠ other) = true ∧ decide (e.1 = other) = true)) = true := by
      intro e _
      by_cases he : e.1 = other <;> simp [he]
    simp only [if_true]
    rw [List.find?_eq_none.2 never]
    rfl
  · simp only [h, if_false]
    congr 2
    funext e
    by_cases he : e.1 = other
    · simp [he, h]
    · simp [he]

theorem erase_absent {m : KeyMap V} {key : Key} (absent : m.get? key = none) :
    m.erase key = m := by
  have missing := List.find?_eq_none.1 (Option.map_eq_none_iff.1 absent)
  have kept : m.entries.filter (·.1 ≠ key) = m.entries :=
    List.filter_eq_self.2 fun e member => by simpa using missing e member
  rw [erase, kept]

theorem get?_insert (m : KeyMap V) (key other : Key) (v : V) :
    (m.insert key v).get? other = if other = key then some v else m.get? other := by
  by_cases h : key = other
  · subst h
    simp [get?, insert]
  · have step : (m.insert key v).get? other = (m.erase key).get? other := by
      simp [get?, insert, h]
    have ne : ¬other = key := fun e => h e.symm
    simp [step, get?_erase, ne]

end KeyMap

end Loadable
