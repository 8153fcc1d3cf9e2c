import Loadable.Proofs.Ancestors
import Loadable.Proofs.Course
import Loadable.Proofs.HostText
/-!
Which keys are canonical. A `..` of the path is always carried out; one of the working directory is
not, and stays in the key unless the path climbs out over it. A key is canonical if no such `..` is
left, and only then does it stand for itself when it is resolved again.
-/
namespace Loadable

/-- Where a component leads from a place, going by names alone. -/
def Component.lead {α : Type} (place : List (List α)) : Component α → List (List α)
  | root => []
  | up => place.dropLast
  | name text => place ++ [text]
  | drive _ | here => place

namespace Flavor

section Resolving

variable {α : Type}

/-- To resolve is to go by names as long as there is a root below and no `..` to come upon. -/
theorem foldl_lead {path : List (Component α)} (leads : ∀ c ∈ path, c.LeadsOn)
    (place : List (List α)) :
    path.foldl (advance false) ((place.map .name).reverse ++ [.root]) =
      ((path.foldl Component.lead place).map .name).reverse ++ [.root] := by
  induction path generalizing place with
  | nil => rfl
  | cons c path ih =>
    have later : ∀ d ∈ path, d.LeadsOn := fun d member => leads d (List.mem_cons_of_mem c member)
    have step : advance false ((place.map Component.name).reverse ++ [.root]) c =
        ((Component.lead place c).map .name).reverse ++ [.root] := by
      cases c with
      | here => rfl
      | name text => simp [advance, Component.lead]
      | up =>
        cases place using List.reverseRecOn with
        | nil => rfl
        | append_singleton above last => simp [advance, Component.lead]
      | drive _ => exact (leads _ List.mem_cons_self).elim
      | root => exact (leads _ List.mem_cons_self).elim
    rw [List.foldl_cons, List.foldl_cons, step, ih later]

theorem foldl_lead_names (above place : List (List α)) :
    (place.map Component.name).foldl Component.lead above = above ++ place := by
  induction place generalizing above with
  | nil => simp
  | cons name place ih =>
    rw [List.map_cons, List.foldl_cons, ih]
    simp [Component.lead]

variable [PathLetter α]

theorem not_rooted_of_follows {components rest : List (Component α)}
    (follows : ∀ c ∈ components, Follows c) : components ≠ .root :: rest := by
  rintro rfl
  exact (follows _ List.mem_cons_self).leadsOn

theorem isName_of_mem_foldl_lead {path : List (Component α)} {place : List (List α)}
    (names : ∀ name ∈ place, IsName name) (named : ∀ text, .name text ∈ path → IsName text) :
    ∀ name ∈ path.foldl Component.lead place, IsName name := by
  induction path generalizing place with
  | nil => exact names
  | cons c path ih =>
    have next : ∀ name ∈ Component.lead place c, IsName name := by
      intro name member
      cases c with
      | name text =>
        rcases List.mem_append.1 member with before | last
        · exact names name before
        · rw [List.mem_singleton.1 last]
          exact named text List.mem_cons_self
      | up => exact names name (List.dropLast_subset place member)
      | root => exact absurd member List.not_mem_nil
      | _ => exact names name member
    exact ih next fun text member => named text (List.mem_cons_of_mem c member)

variable [DecidableEq α] {path cwd : List α}

/-- What is left of the working directory, below the root, when the path has climbed from it. -/
def standing (path cwd : List α) : List (Component α) :=
  match posix.components path with
  | .root :: _ => []
  | components =>
    let above := (posix.components cwd).tail
    above.take (above.length - (Course.of components).climbs)

def placeOf (path cwd : List α) : List (List α) :=
  (posix.components cwd ++ posix.components path).foldl Component.lead []

variable {above : List (Component α)}

theorem standing_unrooted (follows : ∀ c ∈ posix.components path, Follows c)
    (found : posix.components cwd = .root :: above) : standing path cwd =
      above.take (above.length - (Course.of (posix.components path)).climbs) := by
  unfold standing
  split
  case h_1 rest rooted => exact absurd rooted (not_rooted_of_follows follows)
  case h_2 => rw [found, List.tail_cons]

theorem standing_nil (found : posix.components cwd = .root :: above) : standing [] cwd = above := by
  have empty : posix.components ([] : List α) = [] := by
    simp [components_posix, startsRooted, splitAt, Component.ofPieces, Component.ofPiece?]
  have follows : ∀ c ∈ posix.components ([] : List α), Follows c := by simp [empty]
  rw [standing_unrooted follows found, empty]
  exact List.take_length

theorem standing_plain (absolute : posix.isAbsolute cwd = true) :
    ∀ c ∈ standing path cwd, c.Plain := by
  obtain ⟨above, found, plain⟩ := components_of_isAbsolute absolute
  rcases components_cases path with ⟨below, rooted, _⟩ | follows
  · simp [standing, rooted]
  · rw [standing_unrooted follows found]
    exact fun c member => plain c (List.mem_of_mem_take member)

theorem isName_of_mem_components {text : List α} (member : .name text ∈ posix.components path) :
    IsName text := by
  rcases components_cases path with ⟨below, rooted, plain⟩ | follows
  · rw [rooted] at member
    rcases List.mem_cons.1 member with never | later
    · cases never
    · exact plain _ later
  · exact (follows _ member).resolve_right nofun

theorem descent_plain (path : List α) :
    ∀ c ∈ (Course.of (posix.components path)).descent, c.Plain := by
  intro c member
  obtain ⟨text, _, rfl⟩ := List.mem_map.1 member
  exact isName_of_mem_components (Course.mem_of_mem_descent member)

theorem settled_standing (absolute : posix.isAbsolute cwd = true) :
    ∀ c ∈ standing path cwd ++ (Course.of (posix.components path)).descent, c.Plain := by
  intro c member
  rcases List.mem_append.1 member with stands | goes
  · exact standing_plain absolute c stands
  · exact descent_plain path c goes

theorem gather_unrooted (follows : ∀ c ∈ posix.components path, Follows c)
    (found : posix.components cwd = .root :: above) :
    posix.gather path cwd = (posix.components path).foldl (advance false) (above.reverse ++ [.root]) := by
  rw [gather_of_follows follows, isAbsolute_of_components found, found, List.reverse_cons,
    Bool.not_true]

/-- From an absolute directory: what is left of it, and then the names that the path goes down. -/
theorem gather_standing (absolute : posix.isAbsolute cwd = true) :
    (posix.gather path cwd).reverse =
      .root :: (standing path cwd ++ (Course.of (posix.components path)).descent) := by
  rcases components_cases path with ⟨below, rooted, plain⟩ | follows
  · have leads : ∀ c ∈ below, c.LeadsOn := fun c member => Follows.leadsOn (.inl (plain c member))
    have nothing : standing path cwd = [] := by simp [standing, rooted]
    rw [gather_rooted rooted, foldl_advance_root leads, nothing, rooted]
    rfl
  · obtain ⟨above, found, _⟩ := components_of_isAbsolute absolute
    have leads : ∀ c ∈ posix.components path, c.LeadsOn := fun c member => (follows c member).leadsOn
    have holds : Holds false (above.reverse ++ [.root]) := .inr (by simp)
    rw [gather_unrooted follows found, foldl_advance_of holds leads, climb_rooted,
      standing_unrooted follows found]
    rfl

theorem absolutize_standing (apart : (slash : α) ≠ dot) (absolute : posix.isAbsolute cwd = true) :
    posix.absolutize path cwd =
      write (.root :: (standing path cwd ++ (Course.of (posix.components path)).descent)) := by
  rw [absolutize, gather_standing absolute]
  exact join_settled apart (.rooted (settled_standing absolute))

theorem plain_of_root {below : List (Component α)} (rooted : posix.components path = .root :: below) :
    ∀ c ∈ below, c.Plain := by
  rcases components_cases path with ⟨rest, found, plain⟩ | follows
  · rw [rooted, List.cons.injEq] at found
    rw [found.2]
    exact plain
  · exact absurd rooted (not_rooted_of_follows follows)

theorem absolutize_descent (apart : (slash : α) ≠ dot) {below : List (Component α)}
    (rooted : posix.components path = .root :: below) (cwd : List α) :
    posix.absolutize path cwd = write (.root :: (Course.of below).descent) := by
  have atRoot : posix.isAbsolute [(slash : α)] = true := isAbsolute_of_components (components_rooted [])
  have same : posix.absolutize path cwd = posix.absolutize path [slash] := by
    rw [absolutize, absolutize, gather_rooted rooted, gather_rooted rooted]
  have nothing : standing path [slash] = [] := by simp [standing, rooted]
  rw [same, absolutize_standing apart atRoot, nothing, rooted]
  rfl

theorem gather_placeOf (absolute : posix.isAbsolute cwd = true) (down : .up ∉ posix.components cwd)
    (path : List α) : (posix.gather path cwd).reverse = .root :: (placeOf path cwd).map .name := by
  obtain ⟨above, found, plain⟩ := components_of_isAbsolute absolute
  have below : .up ∉ above := fun member => down (found ▸ List.mem_cons_of_mem _ member)
  obtain ⟨place, names, rfl⟩ := names_of_plain plain below
  have led : (posix.components cwd).foldl Component.lead [] = place := by
    rw [found]
    exact (foldl_lead_names [] place).trans (List.nil_append place)
  rw [placeOf, List.foldl_append, led]
  rcases components_cases path with ⟨rest, rooted, settled⟩ | follows
  · have leads : ∀ c ∈ rest, c.LeadsOn := fun c member => Follows.leadsOn (.inl (settled c member))
    have gone : rest.foldl (advance false) [.root] = _ := foldl_lead leads []
    rw [gather_rooted rooted, gone, rooted]
    simp [Component.lead]
  · have leads : ∀ c ∈ posix.components path, c.LeadsOn := fun c member => (follows c member).leadsOn
    rw [gather_unrooted follows found, foldl_lead leads place]
    simp

theorem absolutize_placeOf (apart : (slash : α) ≠ dot) (absolute : posix.isAbsolute cwd = true)
    (down : .up ∉ posix.components cwd) (path : List α) :
    posix.absolutize path cwd = slash :: joinNames (placeOf path cwd) := by
  have gathered := gather_placeOf absolute down path
  rw [gather_standing absolute] at gathered
  rw [absolutize_standing apart absolute, gathered, write_map_name]

theorem isName_of_mem_placeOf : ∀ name ∈ placeOf path cwd, IsName name := by
  refine isName_of_mem_foldl_lead (fun name none => absurd none List.not_mem_nil) ?_
  intro text member
  rcases List.mem_append.1 member with above | below
  · exact isName_of_mem_components above
  · exact isName_of_mem_components below

theorem placeOf_joinNames (apart : (slash : α) ≠ dot) {place : List (List α)}
    (names : ∀ name ∈ place, IsName name) (cwd : List α) :
    placeOf (slash :: joinNames place) cwd = place := by
  have read := components_write apart (.rooted (plain_names names))
  rw [write_map_name] at read
  rw [placeOf, read, List.foldl_append, List.foldl_cons]
  exact (foldl_lead_names [] place).trans (List.nil_append place)

theorem absolutize_joinNames (apart : (slash : α) ≠ dot) {place : List (List α)}
    (names : ∀ name ∈ place, IsName name) (cwd : List α) :
    posix.absolutize (slash :: joinNames place) cwd = slash :: joinNames place := by
  have read := components_write apart (.rooted (plain_names names))
  rw [write_map_name] at read
  rw [absolutize_descent apart read, Course.descent_names, write_map_name]

end Resolving

section Keys

variable {path cwd : Text} {key : Key} {others : List (Component UInt8)}

theorem canonical_iff_up (plain : ∀ d ∈ others, d.Plain) :
    Key.IsCanonical (write (.root :: others)) ↔ .up ∉ others := by
  constructor
  · rintro ⟨place, names, same⟩ member
    obtain ⟨settled, written⟩ := write_names names
    have read := components_write slash_ne_dot_bytes (.rooted plain)
    rw [same, written, components_write slash_ne_dot_bytes settled, List.cons.injEq] at read
    rw [← read.2] at member
    obtain ⟨name, _, never⟩ := List.mem_map.1 member
    cases never
  · intro down
    obtain ⟨place, names, rfl⟩ := names_of_plain plain down
    exact ⟨place, names, (write_names names).2.symm⟩

theorem up_mem_iff_of_forall₂ {components : List (Component CodePoint)}
    (alike : List.Forall₂ (fun c d => c.encode? = some d) components others) :
    .up ∈ others ↔ .up ∈ components := by
  constructor
  · exact up_mem_of_forall₂ alike
  · intro member
    induction alike with
    | nil => exact absurd member List.not_mem_nil
    | cons first rest ih =>
      rcases List.mem_cons.1 member with rfl | later
      · cases first
        exact List.mem_cons_self
      · exact List.mem_cons_of_mem _ (ih later)

theorem resolve_standing (absolute : posix.isAbsolute cwd = true)
    (resolved : posix.resolve path cwd = .ok key) :
    ∃ others : List (Component UInt8), key = write (.root :: others) ∧ (∀ d ∈ others, d.Plain) ∧
      List.Forall₂ (fun c d => c.encode? = some d)
        (standing path cwd ++ (Course.of (posix.components path)).descent) others := by
  have plain : ∀ c ∈ standing path cwd ++ (Course.of (posix.components path)).descent, c.Plain :=
    settled_standing absolute
  rw [resolve_posix, absolutize_standing slash_ne_dot_text absolute] at resolved
  obtain ⟨_, _, rfl, alike⟩ := settled_of_encode? (.rooted plain) resolved
  cases alike with
  | cons first alike =>
    cases first
    exact ⟨_, rfl, plain_of_forall₂ alike plain, alike⟩

theorem canonical_iff_standing (absolute : posix.isAbsolute cwd = true)
    (resolved : posix.resolve path cwd = .ok key) :
    key.IsCanonical ↔ .up ∉ standing path cwd := by
  obtain ⟨others, rfl, plain, alike⟩ := resolve_standing absolute resolved
  rw [canonical_iff_up plain, up_mem_iff_of_forall₂ alike, List.mem_append]
  simp [Course.up_not_mem_descent]

theorem resolve_encode? (plain : ∀ d ∈ others, d.Plain)
    (encoded : Text.encode? path = some (write (.root :: others))) (cwd : Text) :
    posix.resolve path cwd = .ok (write (.root :: others)) ↔ .up ∉ others := by
  obtain ⟨components, found, alike⟩ :=
    components_encode? encoded (components_write slash_ne_dot_bytes (.rooted plain))
  have plainText := plain_of_root found
  rw [resolve_posix, absolutize_descent slash_ne_dot_text found]
  constructor
  · intro resolved
    have atRoot : posix.isAbsolute ([slash] : Text) = true := by decide
    have again : posix.resolve path [slash] = .ok (write (.root :: others)) := by
      rw [resolve_posix, absolutize_descent slash_ne_dot_text found, resolved]
    have nothing : .up ∉ standing path [slash] := by simp [standing, found]
    exact (canonical_iff_up plain).1 ((canonical_iff_standing atRoot again).2 nothing)
  · intro down
    have below : .up ∉ components := fun member => down ((up_mem_iff_of_forall₂ alike).2 member)
    obtain ⟨place, names, rfl⟩ := names_of_plain plainText below
    rw [Course.descent_names]
    exact write_encode? (.cons rfl alike)

theorem resolveGiven_bytes (plain : ∀ d ∈ others, d.Plain) (other : GivenPath) :
    posix.resolveGiven (.bytes (write (.root :: others))) other = .ok (write (.root :: others)) ↔
      .up ∉ others := by
  have encoded := Text.encode?_decode (write (.root :: others))
  obtain ⟨components, found, _⟩ :=
    components_encode? encoded (components_write slash_ne_dot_bytes (.rooted plain))
  have given : posix.absolutizeGiven (.bytes (write (.root :: others))) other =
      .ok (posix.absolutize (Text.decode (write (.root :: others))) []) := by
    simp only [absolutizeGiven, GivenPath.asText, bind, Except.bind, found, pure, Except.pure]
  rw [← resolve_encode? plain encoded [], resolveGiven, given, resolve]
  simp only [keyOfGiven]
  cases posix.keyOf (posix.absolutize (Text.decode (write (.root :: others))) []) <;> simp

theorem text_of_resolve {stretch : Text.Unencodable} (refused : posix.resolve path cwd = .error stretch) :
    stretch.text = posix.absolutize path cwd := by
  unfold resolve keyOf Text.encode at refused
  cases encoded : Text.encode? (posix.absolutize path cwd) with
  | none =>
    rw [encoded] at refused
    cases refused
    rfl
  | some bytes =>
    rw [encoded] at refused
    cases refused

/-- What is written, be it as a key or in the refusal of one, tells whether a `..` is left in it. -/
theorem up_mem_standing_congr {other : Text} (absolute : posix.isAbsolute cwd = true)
    (same : posix.resolve path cwd = posix.resolve other cwd) :
    .up ∈ standing path cwd ↔ .up ∈ standing other cwd := by
  cases resolved : posix.resolve path cwd with
  | ok key =>
    rw [← not_iff_not, ← canonical_iff_standing absolute resolved,
      ← canonical_iff_standing absolute (same ▸ resolved)]
  | error stretch =>
    have text := text_of_resolve resolved
    rw [text_of_resolve (same ▸ resolved), absolutize_standing slash_ne_dot_text absolute,
      absolutize_standing slash_ne_dot_text absolute] at text
    have read := congrArg posix.components text
    rw [components_write slash_ne_dot_text (.rooted (settled_standing absolute)),
      components_write slash_ne_dot_text (.rooted (settled_standing absolute)),
      List.cons.injEq] at read
    have inside := congrArg (Component.up ∈ ·) read.2
    simpa [Course.up_not_mem_descent] using inside.symm

end Keys

end Flavor

namespace Store

open Flavor

variable {s : Store} {path other : GivenPath} {text more : Text}

theorem ownKey_eq_iff (posix : s.flavor = .posix) (read : path.asText = .ok text)
    (readOther : other.asText = .ok more) :
    s.ownKey path = s.ownKey other ↔
      Flavor.posix.resolve text s.cwd = Flavor.posix.resolve more s.cwd := by
  simp only [ownKey, read, readOther, posix]
  cases Flavor.posix.resolve text s.cwd <;> cases Flavor.posix.resolve more s.cwd <;> simp

/-- From an absolute directory all spellings of a path have one key if and only if no `..` is in the
name of the directory. -/
theorem spellings_agree_iff (posix : s.flavor = .posix)
    (absolute : Flavor.posix.isAbsolute s.cwd = true) :
    (∀ (path other : GivenPath) (text more : Text), path.asText = .ok text →
        other.asText = .ok more → placeOf text s.cwd = placeOf more s.cwd →
        s.ownKey path = s.ownKey other) ↔ .up ∉ Flavor.posix.components s.cwd := by
  constructor
  · intro agree member
    -- The directory's own name and the plain spelling of its place part.
    have names : ∀ name ∈ placeOf [] s.cwd, IsName name := isName_of_mem_placeOf
    obtain ⟨above, found, _⟩ := components_of_isAbsolute absolute
    have rooted := components_write slash_ne_dot_text (.rooted (plain_names names))
    rw [write_map_name] at rooted
    have same := agree (.text []) (.text (slash :: joinNames (placeOf [] s.cwd))) _ _ rfl rfl
      (placeOf_joinNames slash_ne_dot_text names s.cwd).symm
    have left := up_mem_standing_congr absolute ((ownKey_eq_iff posix rfl rfl).1 same)
    have nothing : standing (slash :: joinNames (placeOf [] s.cwd)) s.cwd = [] := by
      simp [standing, rooted]
    rw [standing_nil found, nothing] at left
    rw [found] at member
    rcases List.mem_cons.1 member with never | inside
    · cases never
    · exact absurd (left.1 inside) List.not_mem_nil
  · intro down path other text more read readOther same
    rw [ownKey_eq_iff posix read readOther, resolve, resolve,
      absolutize_placeOf slash_ne_dot_text absolute down,
      absolutize_placeOf slash_ne_dot_text absolute down, same]

end Store

namespace Key

open Flavor

variable {path cwd : Text} {key : Key}

theorem IsCanonical.resolve (canonical : key.IsCanonical) (encoded : Text.encode? path = some key)
    (cwd : Text) : posix.resolve path cwd = .ok key := by
  obtain ⟨place, names, rfl⟩ := canonical
  obtain ⟨_, written⟩ := write_names names
  rw [written] at encoded ⊢
  exact (resolve_encode? (plain_names names) encoded cwd).2 (by simp)

theorem IsCanonical.ownKey (canonical : key.IsCanonical) (cwd : Text) (backend : Backend) :
    Store.ownKey ⟨.posix, cwd, backend⟩ (.bytes key) = .ok key :=
  Store.ownKey_ok.2 ⟨_, rfl, canonical.resolve (Text.encode?_decode key) cwd⟩

theorem isCanonical_of_resolve (absolute : posix.isAbsolute cwd = true)
    (resolved : posix.resolve path cwd = .ok key)
    (tidy : posix.isAbsolute path = true ∨ .up ∉ posix.components cwd) : key.IsCanonical := by
  rcases tidy with rooted | down
  · obtain ⟨below, found, _⟩ := components_of_isAbsolute rooted
    rw [canonical_iff_standing absolute resolved]
    simp [standing, found]
  · exact canonical_of_resolve absolute down resolved

/-- Against an absolute directory every key is a slash and pieces between slashes, each of them a
name or a `..`. The key is canonical if and only if the path climbs out over every `..` of the
directory, and if and only if resolving it again gives it back. -/
theorem canonical_iff_nothing_stands (absolute : posix.isAbsolute cwd = true)
    (resolved : posix.resolve path cwd = .ok key) :
    (∃ pieces : Place, (∀ piece ∈ pieces, IsName piece ∨ piece = [dot, dot]) ∧ key = pieces.path) ∧
      (key.getLast? = some slash → key = [slash]) ∧
      (key.IsCanonical ↔ .up ∉ standing path cwd) ∧
      (posix.isAbsolute path = true ∨ .up ∉ posix.components cwd → key.IsCanonical) ∧
      (key.IsCanonical ↔ ∀ other, posix.resolveGiven (.bytes key) other = .ok key) ∧
      ∀ s : Store, s.flavor = .posix → s.cwd = cwd →
        ((∀ (one other : GivenPath) (text more : Text), one.asText = .ok text →
            other.asText = .ok more → placeOf text cwd = placeOf more cwd →
            s.ownKey one = s.ownKey other) ↔ .up ∉ posix.components cwd) := by
  obtain ⟨others, written, plain, _⟩ := resolve_standing absolute resolved
  refine ⟨⟨others.map Component.written, ?_, written⟩, ?_, canonical_iff_standing absolute resolved,
    isCanonical_of_resolve absolute resolved, ?_, ?_⟩
  · intro piece member
    obtain ⟨d, inside, rfl⟩ := List.mem_map.1 member
    have settled := plain d inside
    cases d with
    | name text => exact .inl settled
    | up => exact .inr rfl
    | _ => exact settled.elim
  · intro ends
    rw [written] at ends ⊢
    rw [write_ends slash_ne_dot_bytes plain ends]
    rfl
  · rw [written, canonical_iff_up plain]
    constructor
    · exact fun down other => (resolveGiven_bytes plain other).2 down
    · exact fun again => (resolveGiven_bytes plain (.text [])).1 (again _)
  · rintro s posix rfl
    exact Store.spellings_agree_iff posix absolute

theorem below_tidy_directory :
    posix.isAbsolute (Text.ofString "/a/b") = true ∧
      posix.resolve (Text.ofString "../c//./d/") (Text.ofString "/a/b") =
        .ok (Bytes.ofString "/a/c/d") ∧
      Key.IsCanonical (Bytes.ofString "/a/c/d") ∧
      ∀ other, posix.resolveGiven (.bytes (Bytes.ofString "/a/c/d")) other =
        .ok (Bytes.ofString "/a/c/d") := by
  have absolute : posix.isAbsolute (Text.ofString "/a/b") = true := by decide
  have resolved : posix.resolve (Text.ofString "../c//./d/") (Text.ofString "/a/b") =
      .ok (Bytes.ofString "/a/c/d") := by decide
  obtain ⟨_, _, _, tidy, again, _⟩ := canonical_iff_nothing_stands absolute resolved
  have canonical := tidy (.inr (by decide))
  exact ⟨absolute, resolved, canonical, again.1 canonical⟩

/-- In the directory `/a/../b` the key of `x` keeps the `..`; resolved again it is the key of
`/b/x`. -/
theorem dots_stay_in_key :
    posix.isAbsolute (Text.ofString "/a/../b") = true ∧
      posix.resolve (Text.ofString "x") (Text.ofString "/a/../b") =
        .ok (Bytes.ofString "/a/../b/x") ∧
      ¬Key.IsCanonical (Bytes.ofString "/a/../b/x") ∧
      posix.resolveGiven (.bytes (Bytes.ofString "/a/../b/x")) (.text (Text.ofString "/a/../b")) =
        .ok (Bytes.ofString "/b/x") := by
  have absolute : posix.isAbsolute (Text.ofString "/a/../b") = true := by decide
  have resolved : posix.resolve (Text.ofString "x") (Text.ofString "/a/../b") =
      .ok (Bytes.ofString "/a/../b/x") := by decide
  refine ⟨absolute, resolved, ?_, by decide⟩
  rw [canonical_iff_standing absolute resolved]
  decide

end Key

end Loadable
