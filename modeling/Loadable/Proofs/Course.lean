import Loadable.Proofs.Components
/-!
The course of a path: how many levels it climbs above the place it starts from, and the names that it
goes down from there. Resolving a path takes that many components away from those it starts with, and
puts the names behind the rest.
-/
namespace Loadable

namespace Component

variable {α : Type}

theorem leadsOn_of_ofPiece [DecidableEq α] [PathLetter α] {mayBeHere : Bool} {piece : List α}
    {c : Component α} (read : ofPiece? mayBeHere piece = some c) : c.LeadsOn := by
  unfold ofPiece? at read
  split at read
  · cases read
  split at read
  · split at read
    · cases read
      trivial
    · cases read
  split at read
  · cases read
    trivial
  · cases read
    trivial

theorem leadsOn_of_mem_ofPieces [DecidableEq α] [PathLetter α] {rooted : Bool}
    {pieces : List (List α)} {c : Component α} (member : c ∈ ofPieces rooted pieces) : c.LeadsOn := by
  cases pieces with
  | nil => exact absurd member List.not_mem_nil
  | cons piece pieces =>
    rcases List.mem_append.1 member with first | later
    · exact leadsOn_of_ofPiece (Option.mem_toList.1 first)
    · obtain ⟨other, _, read⟩ := List.mem_filterMap.1 later
      exact leadsOn_of_ofPiece read

end Component

theorem Flavor.Follows.leadsOn {α : Type} [PathLetter α] {c : Component α}
    (follows : Follows c) : c.LeadsOn := by
  rcases follows with plain | rfl
  · cases c with
    | up => trivial
    | name text => trivial
    | _ => exact plain.elim
  · trivial

variable {α : Type}

/-- So many levels up, and then down these names, the last of them in front. -/
structure Course (α : Type) where
  climbs : Nat := 0
  names : List (List α) := []

namespace Course

def follow (course : Course α) : Component α → Course α
  | .up =>
    match course.names with
    | [] => { course with climbs := course.climbs + 1 }
    | _ :: names => { course with names := names }
  | .name text => { course with names := text :: course.names }
  | _ => course

def of (path : List (Component α)) : Course α :=
  path.foldl follow {}

def descent (course : Course α) : List (Component α) :=
  course.names.reverse.map .name

theorem name_mem_of_mem_foldl {path : List (Component α)} {course : Course α} {text : List α}
    (member : text ∈ (path.foldl follow course).names) :
    text ∈ course.names ∨ .name text ∈ path := by
  induction path generalizing course with
  | nil => exact .inl member
  | cons c path ih =>
    rcases ih member with early | late
    · have origin : text ∈ course.names ∨ .name text = c := by
        cases c with
        | name other =>
          rcases List.mem_cons.1 early with rfl | before
          · exact .inr rfl
          · exact .inl before
        | up =>
          cases names : course.names with
          | nil => simp [follow, names] at early
          | cons last before =>
            simp only [follow, names] at early
            exact .inl (List.mem_cons_of_mem last early)
        | _ => exact .inl early
      rcases origin with before | rfl
      · exact .inl before
      · exact .inr List.mem_cons_self
    · exact .inr (List.mem_cons_of_mem c late)

theorem mem_of_mem_descent {path : List (Component α)} {c : Component α}
    (member : c ∈ (of path).descent) : c ∈ path := by
  obtain ⟨text, named, rfl⟩ := List.mem_map.1 member
  exact (name_mem_of_mem_foldl (List.mem_reverse.1 named)).resolve_left List.not_mem_nil

theorem up_not_mem_descent (course : Course α) : .up ∉ course.descent := by
  intro member
  obtain ⟨text, _, same⟩ := List.mem_map.1 member
  cases same

theorem foldl_follow_names (place : List (List α)) (course : Course α) :
    (place.map Component.name).foldl follow course =
      { course with names := place.reverse ++ course.names } := by
  induction place generalizing course with
  | nil => rfl
  | cons name place ih =>
    rw [List.map_cons, List.foldl_cons, ih]
    simp [follow]

theorem descent_names (place : List (List α)) :
    (of (place.map Component.name)).descent = place.map .name := by
  rw [of, foldl_follow_names, descent, List.append_nil, List.reverse_reverse]

end Course

namespace Flavor

def climb (relative : Bool) : (levels : Nat) → List (Component α) → List (Component α)
  | 0, gathered => gathered
  | levels + 1, gathered => advance relative (climb relative levels gathered) .up

theorem climb_stays {relative : Bool} {lead : List (Component α)}
    (stays : advance relative lead .up = lead) (levels : Nat) : climb relative levels lead = lead := by
  induction levels with
  | zero => rfl
  | succ levels ih => rw [climb, ih, stays]

def Holds (relative : Bool) (gathered : List (Component α)) : Prop :=
  relative = true ∨ gathered ≠ []

theorem Holds.up {relative : Bool} {gathered : List (Component α)} (holds : Holds relative gathered) :
    Holds relative (advance relative gathered .up) := by
  cases relative with
  | true => exact .inl rfl
  | false =>
    right
    by_cases last : gathered.tail = []
    · simp [advance, last]
    · simp [advance, last]

theorem Holds.climb {relative : Bool} {gathered : List (Component α)} (holds : Holds relative gathered)
    (levels : Nat) : Holds relative (climb relative levels gathered) := by
  induction levels with
  | zero => exact holds
  | succ levels ih => exact ih.up

/-- What a path makes of the components that it starts with is known from its course alone. -/
theorem foldl_advance_course {relative : Bool} {gathered : List (Component α)}
    (holds : Holds relative gathered) {path : List (Component α)} (leads : ∀ c ∈ path, c.LeadsOn)
    (course : Course α) :
    path.foldl (advance relative)
        (course.names.map .name ++ climb relative course.climbs gathered) =
      (path.foldl Course.follow course).names.map .name ++
        climb relative (path.foldl Course.follow course).climbs gathered := by
  induction path generalizing course with
  | nil => rfl
  | cons c path ih =>
    have later : ∀ d ∈ path, d.LeadsOn := fun d member => leads d (List.mem_cons_of_mem c member)
    have step : advance relative (course.names.map .name ++ climb relative course.climbs gathered) c =
        (course.follow c).names.map .name ++ climb relative (course.follow c).climbs gathered := by
      cases c with
      | here => rfl
      | name text => rfl
      | up =>
        cases names : course.names with
        | nil => simp [Course.follow, names, climb]
        | cons last before =>
          rcases holds.climb course.climbs with free | kept
          · simp [Course.follow, names, advance, free]
          · simp [Course.follow, names, advance, kept]
      | drive _ => exact (leads _ List.mem_cons_self).elim
      | root => exact (leads _ List.mem_cons_self).elim
    rw [List.foldl_cons, List.foldl_cons, step, ih later]

theorem foldl_advance_of {relative : Bool} {gathered : List (Component α)}
    (holds : Holds relative gathered) {path : List (Component α)} (leads : ∀ c ∈ path, c.LeadsOn) :
    (path.foldl (advance relative) gathered).reverse =
      (climb relative (Course.of path).climbs gathered).reverse ++ (Course.of path).descent := by
  have folded := foldl_advance_course holds leads {}
  change path.foldl (advance relative) gathered = _ at folded
  rw [folded, List.reverse_append, Course.descent, List.map_reverse]
  rfl

theorem climb_rooted (levels : Nat) (above : List (Component α)) :
    (climb false levels (above.reverse ++ [.root])).reverse =
      .root :: above.take (above.length - levels) := by
  have dropped : climb false levels (above.reverse ++ [.root]) =
      above.reverse.drop levels ++ [.root] := by
    induction levels with
    | zero => rfl
    | succ levels ih =>
      rw [climb, ih, ← List.drop_drop]
      cases above.reverse.drop levels with
      | nil => rfl
      | cons c rest => simp [advance]
  rw [dropped, List.drop_reverse, List.reverse_append, List.reverse_reverse]
  rfl

theorem foldl_advance_root {path : List (Component α)} (leads : ∀ c ∈ path, c.LeadsOn) :
    (path.foldl (advance false) [.root]).reverse = .root :: (Course.of path).descent := by
  have holds : Holds false [(.root : Component α)] := .inr (List.cons_ne_nil _ _)
  have kept := climb_rooted (Course.of path).climbs ([] : List (Component α))
  rw [List.reverse_nil, List.nil_append, List.take_nil] at kept
  rw [foldl_advance_of holds leads, kept]
  rfl

end Flavor

end Loadable
