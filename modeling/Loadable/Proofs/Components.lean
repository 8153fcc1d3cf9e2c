import Loadable.Host.Tree
import Loadable.Path.Given
import Mathlib.Data.List.Induction
/-!
Components of `posix` paths, and the paths written from them. Resolving a path gives components that
can be read back from what is written, whatever the path and the working directory are.
-/
namespace Loadable

section Split

variable {α : Type} {isSeparator : α → Bool}

theorem splitAt_ne_nil (isSeparator : α → Bool) (path : List α) : splitAt isSeparator path ≠ [] := by
  cases path with
  | nil => exact List.cons_ne_nil _ _
  | cons a path =>
    rw [splitAt]
    split
    · exact List.cons_ne_nil _ _
    · split <;> exact List.cons_ne_nil _ _

theorem splitAt_append {s : α} (separates : isSeparator s = true) (path rest : List α) :
    splitAt isSeparator (path ++ s :: rest) =
      splitAt isSeparator path ++ splitAt isSeparator rest := by
  induction path with
  | nil => simp [splitAt, separates]
  | cons a path ih =>
    simp only [List.cons_append, splitAt, ih]
    cases isSeparator a with
    | true => rfl
    | false =>
      cases pieces : splitAt isSeparator path with
      | nil => exact absurd pieces (splitAt_ne_nil isSeparator path)
      | cons piece pieces => rfl

theorem splitAt_clear {path : List α} (clear : ∀ a ∈ path, isSeparator a = false) :
    splitAt isSeparator path = [path] := by
  induction path with
  | nil => rfl
  | cons a path ih =>
    have rest : ∀ b ∈ path, isSeparator b = false := fun b member =>
      clear b (List.mem_cons_of_mem a member)
    simp [splitAt, clear a List.mem_cons_self, ih rest]

theorem separator_not_mem_of_mem_splitAt {path piece : List α}
    (member : piece ∈ splitAt isSeparator path) : ∀ a ∈ piece, isSeparator a = false := by
  induction path generalizing piece with
  | nil =>
    rw [splitAt, List.mem_singleton] at member
    subst member
    exact fun a none => absurd none List.not_mem_nil
  | cons b path ih =>
    rw [splitAt] at member
    cases separates : isSeparator b with
    | true =>
      rw [separates] at member
      rcases List.mem_cons.1 member with rfl | later
      · exact fun a none => absurd none List.not_mem_nil
      · exact ih later
    | false =>
      rw [separates] at member
      cases pieces : splitAt isSeparator path with
      | nil => exact absurd pieces (splitAt_ne_nil isSeparator path)
      | cons first others =>
        rw [pieces] at member ih
        rcases List.mem_cons.1 member with rfl | later
        · intro a inside
          rcases List.mem_cons.1 inside with rfl | inside
          · exact separates
          · exact ih List.mem_cons_self a inside
        · exact ih (List.mem_cons_of_mem first later)

end Split

section Names

variable {α : Type} [PathLetter α]

theorem joinNames_cons_cons (name next : List α) (names : List (List α)) :
    joinNames (name :: next :: names) = name ++ slash :: joinNames (next :: names) := rfl

theorem joinNames_cons (name : List α) (names : List (List α)) :
    joinNames (name :: names) = name ++ names.flatMap (slash :: ·) := by
  induction names generalizing name with
  | nil => simp [joinNames]
  | cons next names ih => rw [joinNames_cons_cons, ih, List.flatMap_cons, List.cons_append]

theorem joinNames_append {names : List (List α)} (nonempty : names ≠ []) (more : List (List α)) :
    joinNames (names ++ more) = joinNames names ++ more.flatMap (slash :: ·) := by
  cases names with
  | nil => exact absurd rfl nonempty
  | cons name names =>
    rw [List.cons_append, joinNames_cons, joinNames_cons, List.flatMap_append, List.append_assoc]

variable [DecidableEq α]

theorem posix_separator_iff {a : α} : Flavor.posix.isSeparator a = true ↔ a = slash := by
  simp [Flavor.isSeparator]

theorem posix_clear {name : List α} (clear : slash ∉ name) :
    ∀ a ∈ name, Flavor.posix.isSeparator a = false := by
  intro a member
  have other : a ≠ slash := fun same => clear (same ▸ member)
  simp [Flavor.isSeparator, other]

theorem splitAt_joinNames {names : List (List α)} (nonempty : names ≠ [])
    (clear : ∀ name ∈ names, slash ∉ name) :
    splitAt Flavor.posix.isSeparator (joinNames names) = names := by
  induction names with
  | nil => exact absurd rfl nonempty
  | cons name names ih =>
    have first := posix_clear (clear name List.mem_cons_self)
    cases names with
    | nil => exact splitAt_clear first
    | cons next names =>
      have rest := ih (List.cons_ne_nil _ _) fun other member =>
        clear other (List.mem_cons_of_mem name member)
      rw [joinNames_cons_cons, splitAt_append (posix_separator_iff.2 rfl), splitAt_clear first, rest]
      rfl

end Names

structure IsName {α : Type} [PathLetter α] (name : List α) : Prop where
  nonempty : name ≠ []
  clear : slash ∉ name
  notHere : name ≠ [dot]
  notUp : name ≠ [dot, dot]

instance {α : Type} [DecidableEq α] [PathLetter α] (name : List α) : Decidable (IsName name) :=
  decidable_of_iff (name ≠ [] ∧ slash ∉ name ∧ name ≠ [dot] ∧ name ≠ [dot, dot])
    ⟨fun ⟨nonempty, clear, notHere, notUp⟩ => ⟨nonempty, clear, notHere, notUp⟩,
      fun ⟨nonempty, clear, notHere, notUp⟩ => ⟨nonempty, clear, notHere, notUp⟩⟩

namespace Component

variable {α : Type} [PathLetter α]

def written : Component α → List α
  | drive text => text
  | root => []
  | here => [dot]
  | up => [dot, dot]
  | name text => text

def LeadsOn : Component α → Prop
  | drive _ | root => False
  | here | up | name _ => True

def Plain : Component α → Prop
  | up => True
  | name text => IsName text
  | _ => False

variable {c : Component α}

theorem Plain.nonempty (plain : c.Plain) : c.written ≠ [] := by
  cases c with
  | up => exact List.cons_ne_nil _ _
  | name text => exact IsName.nonempty plain
  | _ => exact plain.elim

theorem Plain.clear (apart : (slash : α) ≠ dot) (plain : c.Plain) : slash ∉ c.written := by
  cases c with
  | up => simp [written, apart]
  | name text => exact IsName.clear plain
  | _ => exact plain.elim

theorem Plain.ends (apart : (slash : α) ≠ dot) (plain : c.Plain) :
    ∃ last, c.written.getLast? = some last ∧ last ≠ slash := by
  obtain ⟨last, ends⟩ : ∃ last, c.written.getLast? = some last :=
    Option.ne_none_iff_exists'.1 (by simpa using plain.nonempty)
  refine ⟨last, ends, ?_⟩
  rintro rfl
  exact plain.clear apart (List.mem_of_getLast? ends)

variable [DecidableEq α]

theorem plain_of_ofPiece {piece : List α} (clear : slash ∉ piece)
    (read : ofPiece? false piece = some c) : c.Plain := by
  unfold ofPiece? at read
  split at read
  · cases read
  split at read
  · cases read
  split at read
  · cases read
    trivial
  · cases read
    exact ⟨‹_›, clear, ‹_›, ‹_›⟩

theorem ofPiece_of_ne_dot {piece : List α} (other : piece ≠ [dot]) (mayBeHere : Bool) :
    ofPiece? mayBeHere piece = ofPiece? false piece := by
  simp [ofPiece?, other]

theorem ofPiece_written (plain : c.Plain) (mayBeHere : Bool) :
    ofPiece? mayBeHere c.written = some c := by
  cases c with
  | up => simp [written, ofPiece?]
  | name text =>
    obtain ⟨nonempty, _, notHere, notUp⟩ := plain
    simp [written, ofPiece?, nonempty, notHere, notUp]
  | _ => exact plain.elim

/-- Written between separators of the flavor the component can be told from them. -/
structure Stands (f : Flavor) (c : Component α) : Prop where
  leads : c.LeadsOn
  nonempty : c.written ≠ []
  clear : ∀ a ∈ c.written, f.isSeparator a = false

theorem Stands.ends {f : Flavor} (stands : c.Stands f) :
    ∃ last, c.written.getLast? = some last ∧ f.isSeparator last = false := by
  obtain ⟨last, ends⟩ : ∃ last, c.written.getLast? = some last :=
    Option.ne_none_iff_exists'.1 (by simpa using stands.nonempty)
  exact ⟨last, ends, stands.clear last (List.mem_of_getLast? ends)⟩

theorem Plain.stands (apart : (slash : α) ≠ dot) (plain : c.Plain) : c.Stands .posix where
  leads := by
    cases c with
    | up => trivial
    | name text => trivial
    | _ => exact plain.elim
  nonempty := plain.nonempty
  clear := posix_clear (plain.clear apart)

end Component

/-- Components as they stand in a path that is written out: a root or a `.` only in front. -/
inductive Settled {α : Type} [PathLetter α] : List (Component α) → Prop where
  | rooted {rest : List (Component α)} (plain : ∀ c ∈ rest, c.Plain) : Settled (.root :: rest)
  | here {rest : List (Component α)} (plain : ∀ c ∈ rest, c.Plain) : Settled (.here :: rest)
  | bare {rest : List (Component α)} (plain : ∀ c ∈ rest, c.Plain) : Settled rest

namespace Flavor

variable {α : Type} [PathLetter α]

def write : List (Component α) → List α
  | .root :: rest => slash :: joinNames (rest.map Component.written)
  | components => joinNames (components.map Component.written)

theorem write_bare {components : List (Component α)} (plain : ∀ c ∈ components, c.Plain) :
    write components = joinNames (components.map Component.written) := by
  cases components with
  | nil => rfl
  | cons c rest =>
    cases c with
    | root => exact (plain _ List.mem_cons_self).elim
    | _ => rfl

theorem write_ends (apart : (slash : α) ≠ dot) {rest : List (Component α)}
    (plain : ∀ c ∈ rest, c.Plain) (ends : (write (.root :: rest)).getLast? = some slash) :
    rest = [] := by
  induction rest using List.reverseRecOn with
  | nil => rfl
  | append_singleton above c =>
    obtain ⟨last, final, other⟩ := (plain c (by simp)).ends apart
    have closed : (write (.root :: (above ++ [c]))).getLast? = some last := by
      by_cases empty : above = []
      · simp [write, empty, joinNames, List.getLast?_cons, final]
      · have names : above.map Component.written ≠ [] := by simpa using empty
        simp [write, joinNames_append names, List.getLast?_cons, List.getLast?_append, final]
    rw [closed] at ends
    exact absurd (Option.some.inj ends) other

theorem written_clear (apart : (slash : α) ≠ dot) {rest : List (Component α)}
    (plain : ∀ c ∈ rest, c.Plain) : ∀ text ∈ rest.map Component.written, slash ∉ text := by
  intro text member
  obtain ⟨c, inside, rfl⟩ := List.mem_map.1 member
  exact (plain c inside).clear apart

theorem written_names (place : List (List α)) :
    (place.map Component.name).map Component.written = place := by
  rw [List.map_map]
  exact List.map_id place

theorem write_map_name (place : List (List α)) :
    write (.root :: place.map .name) = slash :: joinNames place := by
  rw [write, written_names]

theorem plain_names {place : List (List α)} (names : ∀ name ∈ place, IsName name) :
    ∀ c ∈ place.map Component.name, c.Plain := by
  intro c member
  obtain ⟨name, inside, rfl⟩ := List.mem_map.1 member
  exact names name inside

theorem names_of_plain {components : List (Component α)} (plain : ∀ c ∈ components, c.Plain)
    (down : .up ∉ components) :
    ∃ place : List (List α), (∀ name ∈ place, IsName name) ∧ components = place.map .name := by
  induction components with
  | nil => exact ⟨[], fun name none => absurd none List.not_mem_nil, rfl⟩
  | cons c components ih =>
    obtain ⟨place, names, rfl⟩ := ih (fun c member => plain c (List.mem_cons_of_mem _ member))
      fun member => down (List.mem_cons_of_mem _ member)
    have first := plain c List.mem_cons_self
    cases c with
    | name text =>
      refine ⟨text :: place, ?_, rfl⟩
      intro name member
      rcases List.mem_cons.1 member with rfl | member
      · exact first
      · exact names name member
    | up => exact absurd List.mem_cons_self down
    | _ => exact first.elim

def Follows (c : Component α) : Prop :=
  c.Plain ∨ c = .here

theorem foldl_advance_rooted (rest : List (Component α)) {path : List (Component α)}
    (follows : ∀ c ∈ path, Follows c) :
    ∃ more, path.foldl (advance false) (rest ++ [.root]) = more ++ [.root] ∧
      ∀ d ∈ more, d ∈ rest ∨ (d.Plain ∧ d ≠ .up) := by
  induction path generalizing rest with
  | nil => exact ⟨rest, rfl, fun d member => .inl member⟩
  | cons c path ih =>
    have later : ∀ d ∈ path, Follows d := fun d member => follows d (List.mem_cons_of_mem c member)
    have first : ∃ next, advance false (rest ++ [.root]) c = next ++ [.root] ∧
        ∀ d ∈ next, d ∈ rest ∨ (d.Plain ∧ d ≠ .up) := by
      cases c with
      | here => exact ⟨rest, rfl, fun d member => .inl member⟩
      | up =>
        cases rest with
        | nil => exact ⟨[], rfl, fun d none => absurd none List.not_mem_nil⟩
        | cons d rest =>
          refine ⟨rest, ?_, fun e member => .inl (List.mem_cons_of_mem d member)⟩
          simp [advance]
      | name text =>
        have plain : (Component.name text).Plain := by
          rcases follows _ List.mem_cons_self with plain | other
          · exact plain
          · cases other
        refine ⟨.name text :: rest, rfl, ?_⟩
        intro d member
        rcases List.mem_cons.1 member with rfl | member
        · exact .inr ⟨plain, nofun⟩
        · exact .inl member
      | _ => rcases follows _ List.mem_cons_self with never | never <;> cases never
    obtain ⟨next, advanced, fromFirst⟩ := first
    obtain ⟨more, gathered, fromRest⟩ := ih next later
    refine ⟨more, by rw [List.foldl_cons, advanced, gathered], ?_⟩
    intro d member
    rcases fromRest d member with inside | new
    · exact fromFirst d inside
    · exact .inr new

/-- Without a root a `..` may lead out of all that has been gathered. -/
theorem foldl_advance_relative (rest : List (Component α)) {lead path : List (Component α)}
    (plain : ∀ c ∈ rest, c.Plain) (front : lead = [] ∨ lead = [.here])
    (follows : ∀ c ∈ path, Follows c) :
    Settled (path.foldl (advance true) (rest ++ lead)).reverse := by
  induction path generalizing rest lead with
  | nil =>
    have reversed : ∀ c ∈ rest.reverse, c.Plain := fun c member =>
      plain c (List.mem_reverse.1 member)
    rcases front with rfl | rfl
    · simpa using Settled.bare reversed
    · simpa using Settled.here reversed
  | cons c path ih =>
    have later : ∀ d ∈ path, Follows d := fun d member => follows d (List.mem_cons_of_mem c member)
    rw [List.foldl_cons]
    cases c with
    | here => exact ih rest plain front later
    | up =>
      cases rest with
      | nil =>
        have popped : advance true ([] ++ lead) .up = [] ++ [] := by
          rcases front with rfl | rfl <;> rfl
        rw [popped]
        exact ih [] (fun c none => absurd none List.not_mem_nil) (.inl rfl) later
      | cons d rest =>
        have popped : advance true (d :: rest ++ lead) .up = rest ++ lead := by simp [advance]
        rw [popped]
        exact ih rest (fun c member => plain c (List.mem_cons_of_mem d member)) front later
    | name text =>
      have new : (Component.name text).Plain := by
        rcases follows _ List.mem_cons_self with plain | other
        · exact plain
        · cases other
      refine ih (.name text :: rest) ?_ front later
      intro d member
      rcases List.mem_cons.1 member with rfl | member
      · exact new
      · exact plain d member
    | _ => rcases follows _ List.mem_cons_self with never | never <;> cases never

variable [DecidableEq α]

theorem startsRooted_iff {path : List α} : posix.startsRooted path = true ↔ path.head? = some slash := by
  cases path with
  | nil => simp [startsRooted]
  | cons a path => simp [startsRooted, posix_separator_iff]

theorem components_posix (path : List α) :
    posix.components path = (if posix.startsRooted path then [.root] else []) ++
      Component.ofPieces (posix.startsRooted path) (splitAt posix.isSeparator path) := by
  simp [components, splitDrive, isShare]

theorem components_rooted (path : List α) :
    posix.components (slash :: path) = .root ::
      (splitAt posix.isSeparator path).filterMap (Component.ofPiece? false) := by
  have rooted : posix.startsRooted (slash :: path) = true := posix_separator_iff.2 rfl
  rw [components_posix, rooted, splitAt, if_pos (posix_separator_iff.2 rfl)]
  simp [Component.ofPieces, Component.ofPiece?]

theorem plain_of_mem_pieces {pieces : List (List α)} (clear : ∀ piece ∈ pieces, slash ∉ piece)
    {c : Component α} (member : c ∈ pieces.filterMap (Component.ofPiece? false)) : c.Plain := by
  obtain ⟨piece, inside, read⟩ := List.mem_filterMap.1 member
  exact Component.plain_of_ofPiece (clear piece inside) read

theorem slash_not_mem_of_mem_splitAt {path piece : List α}
    (member : piece ∈ splitAt posix.isSeparator path) : slash ∉ piece := by
  intro inside
  have clear := separator_not_mem_of_mem_splitAt member slash inside
  rw [posix_separator_iff.2 rfl] at clear
  cases clear

theorem settled_components (path : List α) : Settled (posix.components path) := by
  cases rooted : posix.startsRooted path with
  | true =>
    cases path with
    | nil => cases rooted
    | cons a path =>
      rw [posix_separator_iff.1 rooted, components_rooted]
      exact .rooted fun c => plain_of_mem_pieces fun piece => slash_not_mem_of_mem_splitAt
  | false =>
    rw [components_posix, rooted]
    cases pieces : splitAt posix.isSeparator path with
    | nil => exact absurd pieces (splitAt_ne_nil _ path)
    | cons first others =>
      have clear : ∀ piece ∈ first :: others, slash ∉ piece := fun piece member =>
        slash_not_mem_of_mem_splitAt (pieces ▸ member)
      have rest : ∀ c ∈ others.filterMap (Component.ofPiece? false), c.Plain := fun c =>
        plain_of_mem_pieces fun piece member => clear piece (List.mem_cons_of_mem first member)
      by_cases leading : first = [dot]
      · simpa [Component.ofPieces, leading, Component.ofPiece?] using Settled.here rest
      · have whole : ∀ c ∈ (first :: others).filterMap (Component.ofPiece? false), c.Plain :=
          fun c => plain_of_mem_pieces clear
        have same : Component.ofPieces false (first :: others) =
            (first :: others).filterMap (Component.ofPiece? false) := by
          rw [Component.ofPieces, Component.ofPiece_of_ne_dot leading, List.filterMap_cons]
          cases Component.ofPiece? false first <;> rfl
        simpa [same] using Settled.bare whole

theorem push_leadsOn (f : Flavor) (buffer : List α) {c : Component α} (leads : c.LeadsOn) :
    f.push buffer c = push.step f buffer c.written := by
  cases c with
  | drive text => exact leads.elim
  | root => exact leads.elim
  | _ => rfl

theorem prefix_foldl_push (f : Flavor) (buffer : List α) {components : List (Component α)}
    (leads : ∀ c ∈ components, c.LeadsOn) : buffer <+: components.foldl f.push buffer := by
  induction components generalizing buffer with
  | nil => exact List.prefix_rfl
  | cons c components ih =>
    have first : buffer <+: f.push buffer c := by
      rw [push_leadsOn f buffer (leads c List.mem_cons_self), push.step]
      split <;> exact List.prefix_append _ _
    exact first.trans (ih _ fun d member => leads d (List.mem_cons_of_mem c member))

/-- A path that a separator must follow, and components behind it. Only with `nt` the path could also
be a bare drive, which is shorter. -/
theorem foldl_push {f : Flavor} {buffer : List α} {last : α} (ends : buffer.getLast? = some last)
    (other : f.isSeparator last = false) (long : f = .posix ∨ 2 < buffer.length)
    {rest : List (Component α)} (stands : ∀ c ∈ rest, c.Stands f) :
    rest.foldl f.push buffer =
      buffer ++ (rest.map Component.written).flatMap (f.separator :: ·) := by
  induction rest generalizing buffer last with
  | nil => simp
  | cons c rest ih =>
    have first := stands c List.mem_cons_self
    have needed : f.needsSeparator buffer = true := by
      rcases long with rfl | longer
      · simp [needsSeparator, ends, other]
      · have more : isDriveLetter buffer = false := by
          unfold isDriveLetter
          split
          · simp at longer
          · rfl
        simp [needsSeparator, ends, other, more]
    have pushed : f.push buffer c = buffer ++ f.separator :: c.written := by
      rw [push_leadsOn f buffer first.leads, push.step, if_pos needed]
    obtain ⟨final, ending, different⟩ := first.ends
    have closed : (buffer ++ f.separator :: c.written).getLast? = some final := by
      simp [List.getLast?_append, List.getLast?_cons, ending]
    have still : f = .posix ∨ 2 < (buffer ++ f.separator :: c.written).length :=
      long.imp_right fun longer => by simp; omega
    rw [List.foldl_cons, pushed, ih closed different still fun d member =>
      stands d (List.mem_cons_of_mem c member)]
    simp

theorem foldl_push_open {f : Flavor} {buffer : List α} (free : f.needsSeparator buffer = false)
    (long : f = .posix ∨ 2 ≤ buffer.length) {c : Component α} {rest : List (Component α)}
    (stands : ∀ d ∈ c :: rest, d.Stands f) :
    (c :: rest).foldl f.push buffer =
      buffer ++ c.written ++ (rest.map Component.written).flatMap (f.separator :: ·) := by
  have first := stands c List.mem_cons_self
  have pushed : f.push buffer c = buffer ++ c.written := by
    rw [push_leadsOn f buffer first.leads, push.step, if_neg (by simp [free])]
  obtain ⟨final, ending, different⟩ := first.ends
  have closed : (buffer ++ c.written).getLast? = some final := by
    simp [List.getLast?_append, ending]
  have size : 0 < c.written.length := List.length_pos_iff.2 first.nonempty
  have longer : f = .posix ∨ 2 < (buffer ++ c.written).length :=
    long.imp_right fun long => by simp; omega
  rw [List.foldl_cons, pushed, foldl_push closed different longer fun d member =>
    stands d (List.mem_cons_of_mem c member)]

theorem foldl_push_names {buffer : List α} (free : posix.needsSeparator buffer = false)
    (apart : (slash : α) ≠ dot) {rest : List (Component α)} (plain : ∀ c ∈ rest, c.Plain) :
    rest.foldl posix.push buffer = buffer ++ joinNames (rest.map Component.written) := by
  cases rest with
  | nil => simp [joinNames]
  | cons c rest =>
    rw [foldl_push_open free (.inl rfl) fun d member => (plain d member).stands apart, List.map_cons,
      joinNames_cons, List.append_assoc]
    rfl

theorem join_settled (apart : (slash : α) ≠ dot) {components : List (Component α)}
    (settled : Settled components) : posix.join components = write components := by
  unfold join
  cases settled with
  | rooted plain =>
    have free : posix.needsSeparator [(slash : α)] = false := by simp [needsSeparator, isSeparator]
    exact foldl_push_names free apart plain
  | here plain =>
    have first : posix.push ([] : List α) .here = [dot] := rfl
    have ends : [(dot : α)].getLast? = some dot := rfl
    have other : posix.isSeparator (dot : α) = false := by simpa [isSeparator] using apart.symm
    rw [List.foldl_cons, first, foldl_push ends other (.inl rfl) fun c member =>
      (plain c member).stands apart]
    exact (joinNames_cons _ _).symm
  | bare plain =>
    rw [write_bare plain]
    exact foldl_push_names rfl apart plain

theorem filterMap_written {rest : List (Component α)} (plain : ∀ c ∈ rest, c.Plain) :
    (rest.map Component.written).filterMap (Component.ofPiece? false) = rest := by
  induction rest with
  | nil => rfl
  | cons c rest ih =>
    have first := Component.ofPiece_written (plain c List.mem_cons_self) false
    rw [List.map_cons, List.filterMap_cons, first,
      ih fun c member => plain c (List.mem_cons_of_mem _ member)]

theorem components_joinNames {texts : List (List α)} (clear : ∀ text ∈ texts, slash ∉ text)
    (nonempty : ∀ text ∈ texts, text ≠ []) :
    posix.components (joinNames texts) = Component.ofPieces false texts := by
  cases texts with
  | nil => simp [joinNames, components_posix, startsRooted, splitAt, Component.ofPieces,
      Component.ofPiece?]
  | cons text texts =>
    have unrooted : posix.startsRooted (joinNames (text :: texts)) = false := by
      rw [joinNames_cons]
      cases letters : text with
      | nil => exact absurd letters (nonempty text List.mem_cons_self)
      | cons a more =>
        have other : a ≠ slash := by
          rintro rfl
          exact clear text List.mem_cons_self (letters ▸ List.mem_cons_self)
        simp [startsRooted, isSeparator, other]
    rw [components_posix, unrooted, splitAt_joinNames (List.cons_ne_nil _ _) clear]
    rfl

/-- Components that are written out can be read back. -/
theorem components_write (apart : (slash : α) ≠ dot) {components : List (Component α)}
    (settled : Settled components) : posix.components (write components) = components := by
  cases settled with
  | @rooted rest plain =>
    rw [write, components_rooted]
    cases rest with
    | nil => simp [joinNames, splitAt, Component.ofPiece?]
    | cons c rest =>
      rw [splitAt_joinNames (by simp) (written_clear apart plain), filterMap_written plain]
  | @here rest plain =>
    have clear : ∀ text ∈ [dot] :: rest.map Component.written, slash ∉ text := by
      intro text member
      rcases List.mem_cons.1 member with rfl | member
      · simpa using apart
      · exact written_clear apart plain text member
    have nonempty : ∀ text ∈ [dot] :: rest.map Component.written, text ≠ [] := by
      intro text member
      rcases List.mem_cons.1 member with rfl | member
      · exact List.cons_ne_nil _ _
      · obtain ⟨c, inside, rfl⟩ := List.mem_map.1 member
        exact (plain c inside).nonempty
    have read := components_joinNames clear nonempty
    simpa [write, Component.written, Component.ofPieces, Component.ofPiece?,
      filterMap_written plain] using read
  | bare plain =>
    have nonempty : ∀ text ∈ components.map Component.written, text ≠ [] := by
      intro text member
      obtain ⟨c, inside, rfl⟩ := List.mem_map.1 member
      exact (plain c inside).nonempty
    rw [write_bare plain, components_joinNames (written_clear apart plain) nonempty]
    cases components with
    | nil => rfl
    | cons c rest =>
      have later : ∀ c ∈ rest, c.Plain := fun c member => plain c (List.mem_cons_of_mem _ member)
      simp [Component.ofPieces, Component.ofPiece_written (plain c List.mem_cons_self),
        filterMap_written later]

theorem components_cases (path : List α) :
    (∃ rest, posix.components path = .root :: rest ∧ ∀ c ∈ rest, c.Plain) ∨
      ∀ c ∈ posix.components path, Follows c := by
  have settled := settled_components path
  generalize posix.components path = components at settled ⊢
  cases settled with
  | @rooted rest plain => exact .inl ⟨rest, rfl, plain⟩
  | here plain =>
    right
    intro c member
    rcases List.mem_cons.1 member with rfl | member
    · exact .inr rfl
    · exact .inl (plain c member)
  | bare plain => exact .inr fun c member => .inl (plain c member)

theorem start_unrooted {path : List α} (follows : ∀ c ∈ posix.components path, Follows c)
    (cwd : List α) : posix.start (posix.components path) cwd =
      (!posix.isAbsolute cwd, (posix.components cwd).reverse) := by
  unfold Flavor.start
  split
  case h_1 rest found =>
    rcases follows .root (found ▸ List.mem_cons_self) with never | never <;> cases never
  case h_2 => rfl

theorem gather_of_follows {path : List α} (follows : ∀ c ∈ posix.components path, Follows c)
    (cwd : List α) : posix.gather path cwd =
      (posix.components path).foldl (advance (!posix.isAbsolute cwd)) (posix.components cwd).reverse := by
  rw [gather_eq, start_unrooted follows]

theorem join_rooted (apart : (slash : α) ≠ dot) {gathered : List (Component α)}
    (plain : ∀ c ∈ gathered, c.Plain) :
    posix.join (gathered ++ [Component.root]).reverse = write (.root :: gathered.reverse) := by
  have reversed : ∀ c ∈ gathered.reverse, c.Plain := fun c member =>
    plain c (List.mem_reverse.1 member)
  rw [List.reverse_append]
  exact join_settled apart (.rooted reversed)

theorem absolutize_from_root (apart : (slash : α) ≠ dot) {path : List α}
    {below : List (Component α)} (found : posix.components path = .root :: below)
    (plain : ∀ c ∈ below, c.Plain) (cwd : List α) :
    ∃ rest : List (Component α), posix.absolutize path cwd = write (.root :: rest) ∧
      ∀ c ∈ rest, c.Plain ∧ c ≠ .up := by
  have follows : ∀ c ∈ below, Follows c := fun c member => .inl (plain c member)
  obtain ⟨gathered, folded, origin⟩ := foldl_advance_rooted [] follows
  have settled : ∀ c ∈ gathered, c.Plain ∧ c ≠ .up := fun c member =>
    (origin c member).resolve_left List.not_mem_nil
  refine ⟨gathered.reverse, ?_, fun c member => settled c (List.mem_reverse.1 member)⟩
  rw [absolutize, gather_rooted found, ← join_rooted apart fun c member => (settled c member).1,
    ← folded]
  rfl

theorem isAbsolute_of_components {cwd : List α} {rest : List (Component α)}
    (found : posix.components cwd = .root :: rest) : posix.isAbsolute cwd = true := by
  simp [isAbsolute, found]

theorem components_of_isAbsolute {cwd : List α} (absolute : posix.isAbsolute cwd = true) :
    ∃ above, posix.components cwd = .root :: above ∧ ∀ c ∈ above, c.Plain := by
  rcases components_cases cwd with rooted | unrooted
  · exact rooted
  · cases found : posix.components cwd with
    | nil => simp [isAbsolute, found] at absolute
    | cons c rest =>
      cases c with
      | root => rcases unrooted .root (found ▸ List.mem_cons_self) with never | never <;> cases never
      | _ => simp [isAbsolute, found] at absolute

/-- A path resolved against an absolute directory stands behind a root; a `..` is left in it only if
the directory brings one. -/
theorem absolutize_rooted (apart : (slash : α) ≠ dot) (path : List α) {cwd : List α}
    (absolute : posix.isAbsolute cwd = true) :
    ∃ rest : List (Component α), posix.absolutize path cwd = write (.root :: rest) ∧
      (∀ c ∈ rest, c.Plain) ∧ (.up ∈ rest → .up ∈ posix.components cwd) := by
  rcases components_cases path with ⟨below, found, plain⟩ | follows
  · obtain ⟨rest, written, settled⟩ := absolutize_from_root apart found plain cwd
    exact ⟨rest, written, fun c member => (settled c member).1,
      fun member => absurd rfl (settled _ member).2⟩
  · obtain ⟨above, found, plain⟩ := components_of_isAbsolute absolute
    obtain ⟨gathered, folded, origin⟩ :=
      foldl_advance_rooted above.reverse follows
    have settled : ∀ c ∈ gathered, c.Plain := by
      intro c member
      rcases origin c member with inside | ⟨new, _⟩
      · exact plain c (List.mem_reverse.1 inside)
      · exact new
    refine ⟨gathered.reverse, ?_, fun c member => settled c (List.mem_reverse.1 member), ?_⟩
    · rw [absolutize, gather_of_follows follows, absolute, found, ← join_rooted apart settled, ← folded]
      simp
    · intro member
      rcases origin _ (List.mem_reverse.1 member) with inside | ⟨_, other⟩
      · rw [found]
        exact List.mem_cons_of_mem _ (List.mem_reverse.1 inside)
      · exact absurd rfl other

theorem settled_relative {path cwd : List α} (follows : ∀ c ∈ posix.components path, Follows c)
    (relative : posix.isAbsolute cwd = false) :
    Settled ((posix.components path).foldl (advance true) (posix.components cwd).reverse).reverse := by
  have settled := settled_components cwd
  have unrooted : ∀ rest, posix.components cwd ≠ .root :: rest := by
    intro rest found
    rw [isAbsolute_of_components found] at relative
    cases relative
  generalize posix.components cwd = above at settled unrooted ⊢
  cases settled with
  | rooted plain => exact absurd rfl (unrooted _)
  | here plain =>
    rw [List.reverse_cons]
    exact foldl_advance_relative _ (fun c member => plain c (List.mem_reverse.1 member))
      (.inr rfl) follows
  | bare plain =>
    rw [← List.append_nil above.reverse]
    exact foldl_advance_relative _ (fun c member => plain c (List.mem_reverse.1 member))
      (.inl rfl) follows

/-- Whatever the working directory is, what resolving gives is written so that it can be read back. -/
theorem absolutize_settled (apart : (slash : α) ≠ dot) (path cwd : List α) :
    ∃ components : List (Component α), Settled components ∧
      posix.absolutize path cwd = write components := by
  rcases components_cases path with ⟨below, found, plain⟩ | follows
  · obtain ⟨rest, written, settled⟩ := absolutize_from_root apart found plain cwd
    exact ⟨.root :: rest, .rooted fun c member => (settled c member).1, written⟩
  · cases absolute : posix.isAbsolute cwd with
    | true =>
      obtain ⟨rest, written, plain, _⟩ := absolutize_rooted apart path absolute
      exact ⟨.root :: rest, .rooted plain, written⟩
    | false =>
      have gathered := settled_relative follows absolute
      refine ⟨_, gathered, ?_⟩
      rw [absolutize, gather_of_follows follows, absolute, ← join_settled apart gathered]
      rfl

end Flavor

end Loadable
