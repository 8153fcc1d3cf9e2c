import Loadable.Interpreter
import Loadable.Proofs.Stages
/-!
The source extension at the end of a path. It becomes the end of the last name, so it is there in the
key exactly if it is there in the path, and putting it at the end of a canonical key gives another
one.
-/
namespace Loadable

def Key.extension : Bytes :=
  Bytes.ofString ".rb"

/-- The keys that belong to the candidates of a feature, in order. -/
def Key.candidates (key : Key) : List Key :=
  if Key.extension.isSuffixOf key then [key] else [key ++ Key.extension, key]

section Candidates

variable {name : Text} {key : Key}

theorem Key.candidates_extended (extended : Key.extension <:+ key) : Key.candidates key = [key] :=
  if_pos (List.isSuffixOf_iff_suffix.2 extended)

theorem Key.candidates_bare (bare : ¬Key.extension <:+ key) :
    Key.candidates key = [key ++ Key.extension, key] :=
  if_neg fun extended => bare (List.isSuffixOf_iff_suffix.1 extended)

theorem mem_featureCandidates (name : Text) : name ∈ featureCandidates name := by
  unfold featureCandidates
  split <;> simp

theorem Key.mem_candidates (key : Key) : key ∈ Key.candidates key := by
  unfold Key.candidates
  split <;> simp

end Candidates

namespace Text

variable {t : Text} {bytes : Bytes}

theorem encode?_sourceExtension : encode? sourceExtension = some Key.extension := by
  decide

theorem eq_concat_of_encode? {char : Char} (ascii : char.toNat < 0x80)
    (encoded : t.encode? = some (bytes ++ [PathLetter.ascii char])) :
    ∃ front : Text, t = front ++ [PathLetter.ascii char] ∧ front.encode? = some bytes := by
  cases t using List.reverseRecOn with
  | nil => simp [encode?] at encoded
  | append_singleton front c =>
    obtain ⟨first, last, before, behind, whole⟩ := encode?_append.1 encoded
    obtain ⟨head, tail, single, none, rfl⟩ := encode?_cons.1 behind
    cases none
    rw [List.append_nil] at whole
    cases head using List.reverseRecOn with
    | nil => exact absurd rfl (CodePoint.encode?_ne_nil single)
    | append_singleton others b =>
      rw [← List.append_assoc] at whole
      obtain ⟨rest, same⟩ := List.append_inj' whole rfl
      cases same
      obtain ⟨rfl, alone⟩ := CodePoint.ascii_of_mem_encode? single (by simp) ascii
      have nothing : others = [] := by simpa using alone
      rw [nothing, List.append_nil] at rest
      exact ⟨front, rfl, rest ▸ before⟩

theorem suffix_iff_of_encode? (encoded : t.encode? = some bytes) :
    sourceExtension <:+ t ↔ Key.extension <:+ bytes := by
  constructor
  · rintro ⟨front, rfl⟩
    obtain ⟨first, last, _, behind, rfl⟩ := encode?_append.1 encoded
    rw [encode?_sourceExtension, Option.some.injEq] at behind
    rw [← behind]
    exact List.suffix_append first Key.extension
  · rintro ⟨front, rfl⟩
    have spelled : front ++ Key.extension = front ++ [PathLetter.ascii '.'] ++ [PathLetter.ascii 'r'] ++
        [PathLetter.ascii 'b'] := by
      rw [List.append_assoc, List.append_assoc]
      rfl
    rw [spelled] at encoded
    obtain ⟨most, rfl, before⟩ := eq_concat_of_encode? (by decide) encoded
    obtain ⟨more, rfl, first⟩ := eq_concat_of_encode? (by decide) before
    obtain ⟨rest, rfl, _⟩ := eq_concat_of_encode? (by decide) first
    exact ⟨rest, by rw [List.append_assoc, List.append_assoc]; rfl⟩

/-- The candidates of a feature have the candidates of its key for their bytes. -/
theorem candidates_encode? (encoded : t.encode? = some bytes) :
    List.Forall₂ (fun candidate key => encode? candidate = some key) (featureCandidates t)
      (Key.candidates bytes) := by
  have same := suffix_iff_of_encode? encoded
  by_cases extended : sourceExtension <:+ t
  · rw [featureCandidates_extended extended, Key.candidates_extended (same.1 extended)]
    exact .cons encoded .nil
  · rw [featureCandidates_bare extended, Key.candidates_bare (mt same.2 extended)]
    exact .cons (encode?_append.2 ⟨_, _, encoded, encode?_sourceExtension, rfl⟩) (.cons encoded .nil)

end Text

section Ends

variable {α : Type} {isSeparator : α → Bool} {more : List α}

theorem splitAt_append_clear (clear : ∀ a ∈ more, isSeparator a = false) (path : List α) :
    ∃ pieces last, splitAt isSeparator path = pieces ++ [last] ∧
      splitAt isSeparator (path ++ more) = pieces ++ [last ++ more] := by
  induction path with
  | nil => exact ⟨[], [], rfl, splitAt_clear clear⟩
  | cons a path ih =>
    obtain ⟨pieces, last, before, after⟩ := ih
    cases separates : isSeparator a with
    | true =>
      refine ⟨[] :: pieces, last, ?_, ?_⟩
      · simp [splitAt, separates, before]
      · simp [splitAt, separates, after]
    | false =>
      cases pieces with
      | nil =>
        refine ⟨[], a :: last, ?_, ?_⟩
        · simp [splitAt, separates, before]
        · simp [splitAt, separates, after]
      | cons piece pieces =>
        refine ⟨(a :: piece) :: pieces, last, ?_, ?_⟩
        · simp [splitAt, separates, before]
        · simp [splitAt, separates, after]

variable [PathLetter α]

theorem joinNames_concat (names : List (List α)) (last : List α) :
    ∃ front, ∀ more, joinNames (names ++ [last ++ more]) = front ++ last ++ more := by
  by_cases empty : names = []
  · subst empty
    exact ⟨[], fun more => rfl⟩
  · refine ⟨joinNames names ++ [slash], fun more => ?_⟩
    rw [joinNames_append empty]
    simp

theorem isName_append {last : List α} (clear : slash ∉ last) (clearMore : slash ∉ more)
    (long : 2 < more.length) : IsName (last ++ more) where
  nonempty := by
    intro empty
    simp [List.append_eq_nil_iff.1 empty] at long
  clear := by simp [clear, clearMore]
  notHere := by
    intro same
    have length := congrArg List.length same
    simp at length
    omega
  notUp := by
    intro same
    have length := congrArg List.length same
    simp at length
    omega

end Ends

namespace Flavor

theorem write_concat {α : Type} [PathLetter α] (lead : List (Component α)) (name : List α) :
    name <:+ write (lead ++ [.name name]) := by
  have joined : ∀ components : List (Component α),
      name <:+ joinNames ((components ++ [Component.name name]).map Component.written) := by
    intro components
    obtain ⟨front, ends⟩ := joinNames_concat (components.map Component.written) name
    refine ⟨front, ?_⟩
    simpa [Component.written] using (ends []).symm
  cases lead with
  | nil => exact List.suffix_rfl
  | cons c lead =>
    cases c with
    | root => exact (joined lead).trans (List.suffix_cons slash _)
    | _ => exact joined (_ :: lead)

theorem components_extended (path : Text) : ∃ lead last,
    posix.components (path ++ sourceExtension) = lead ++ [.name (last ++ sourceExtension)] := by
  have clear : ∀ a ∈ sourceExtension, posix.isSeparator a = false := by decide
  obtain ⟨pieces, last, before, after⟩ := splitAt_append_clear clear path
  have member : last ∈ splitAt posix.isSeparator path := by simp [before]
  have name : IsName (last ++ sourceExtension) :=
    isName_append (slash_not_mem_of_mem_splitAt member) (by decide) (by decide)
  have read : Component.ofPiece? false (last ++ sourceExtension) = some (.name (last ++ sourceExtension)) :=
    Component.ofPiece_written (c := .name (last ++ sourceExtension)) name false
  refine ⟨front (path ++ sourceExtension) ++ pieces.filterMap (Component.ofPiece? false), last, ?_⟩
  rw [components_front, after, List.filterMap_append, ← List.append_assoc, List.filterMap_cons, read]
  rfl

/-- A key has the extension if the path has it, whatever is left of the rest. -/
theorem extension_of_resolve {path cwd : Text} {key : Key} (extended : sourceExtension <:+ path)
    (resolved : posix.resolve path cwd = .ok key) : Key.extension <:+ key := by
  obtain ⟨path, rfl⟩ := extended
  obtain ⟨lead, last, found⟩ := components_extended path
  obtain ⟨earlier, gathered⟩ : ∃ earlier, posix.gather (path ++ sourceExtension) cwd =
      .name (last ++ sourceExtension) :: earlier := by
    rw [gather_eq, found, List.foldl_append]
    exact ⟨_, rfl⟩
  have written : sourceExtension <:+ posix.absolutize (path ++ sourceExtension) cwd := by
    rw [absolutize, join_settled slash_ne_dot_text (gather_settled _ cwd).1, gathered, List.reverse_cons]
    exact (List.suffix_append last sourceExtension).trans (write_concat _ _)
  rw [resolve_posix] at resolved
  exact (Text.suffix_iff_of_encode? resolved).1 written

end Flavor

namespace Key

theorem IsCanonical.extended {key : Key} (canonical : key.IsCanonical) :
    IsCanonical (key ++ extension) := by
  obtain ⟨place, names, rfl⟩ := canonical
  cases place using List.reverseRecOn with
  | nil => exact ⟨[extension], by decide, rfl⟩
  | append_singleton above last =>
    obtain ⟨front, ends⟩ := joinNames_concat above last
    refine ⟨above ++ [last ++ extension], ?_, ?_⟩
    · intro name member
      rcases List.mem_append.1 member with upper | final
      · exact names name (List.mem_append_left _ upper)
      · rw [List.mem_singleton.1 final]
        exact isName_append (names last (by simp)).clear (by decide) (by decide)
    · have bare := ends []
      rw [List.append_nil, List.append_nil] at bare
      rw [Place.path, Place.path, bare, ends]
      rfl

end Key

end Loadable
