import Loadable.Path.Key
/-!
The features that have been required, in the order in which they were loaded. Entries are only ever
added.
-/
namespace Loadable

structure Registry where
  loaded : List Key := []
  deriving DecidableEq

namespace Registry

def isLoaded (r : Registry) (feature : Key) : Bool :=
  r.loaded.contains feature

def mark (r : Registry) (feature : Key) : Registry :=
  if r.isLoaded feature then r else ⟨r.loaded ++ [feature]⟩

def size (r : Registry) : Nat :=
  r.loaded.length

theorem isLoaded_iff {r : Registry} {feature : Key} :
    r.isLoaded feature = true ↔ feature ∈ r.loaded := by
  simp [isLoaded]

theorem mem_mark {r : Registry} {feature other : Key} :
    other ∈ (r.mark feature).loaded ↔ other ∈ r.loaded ∨ other = feature := by
  unfold mark
  split
  case isTrue h =>
    constructor
    · exact Or.inl
    · rintro (h' | rfl)
      · exact h'
      · exact isLoaded_iff.1 h
  case isFalse => simp

theorem nodup_mark {r : Registry} (h : r.loaded.Nodup) (feature : Key) :
    (r.mark feature).loaded.Nodup := by
  unfold mark
  split
  case isTrue => exact h
  case isFalse hn =>
    have new : feature ∉ r.loaded := fun hm => hn (isLoaded_iff.2 hm)
    refine List.nodup_append.2 ⟨h, by simp, ?_⟩
    rintro a ha b hb rfl
    exact new (by simpa using (List.mem_singleton.1 hb) ▸ ha)

end Registry

end Loadable
