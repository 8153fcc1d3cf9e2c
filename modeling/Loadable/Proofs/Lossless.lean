import Loadable.Proofs.Likeness
import Loadable.Proofs.Survivors
/-!
Resolving `posix` paths on text and on bytes. Text is resolved to what its bytes are resolved to, so a
byte path never fails and is resolved as if it had never been text. A text path fails if and only if a
component that is left of it cannot be written in bytes.
-/
namespace Loadable

namespace CodePoint

/-- A surrogate that carries no byte. -/
def CarriesNothing (c : CodePoint) : Prop :=
  c.isSurrogate = true ∧ ¬(0xDC80 ≤ c.toNat ∧ c.toNat ≤ 0xDCFF)

theorem encode?_eq_none_iff {c : CodePoint} : c.encode? = none ↔ c.CarriesNothing := by
  cases c with
  | scalar char => simp [encode?, CarriesNothing, isSurrogate]
  | surrogate n =>
    simp only [encode?, CarriesNothing, isSurrogate, toNat, ite_eq_right_iff, reduceCtorEq, imp_false,
      true_and]
    omega

theorem not_carriesNothing_ascii (char : Char) : ¬CarriesNothing (PathLetter.ascii char) :=
  fun nothing => Bool.noConfusion nothing.1

end CodePoint

theorem Text.encode?_eq_none_iff {t : Text} : t.encode? = none ↔ ∃ c ∈ t, c.CarriesNothing := by
  induction t with
  | nil => simp [encode?]
  | cons c t ih =>
    rw [List.exists_mem_cons_iff, ← ih, ← CodePoint.encode?_eq_none_iff, encode?]
    cases c.encode? with
    | none => simp
    | some head => cases encode? t <;> simp

namespace Flavor

section Writing

variable {α : Type} [PathLetter α]

theorem exists_mem_joinNames {P : α → Prop} (other : ¬P slash) {names : List (List α)} :
    (∃ a ∈ joinNames names, P a) ↔ ∃ name ∈ names, ∃ a ∈ name, P a := by
  induction names with
  | nil => simp [joinNames]
  | cons name names ih =>
    cases names with
    | nil => simp [joinNames]
    | cons next names =>
      rw [joinNames_cons_cons, List.exists_mem_cons_iff, ← ih]
      simp [or_and_right, exists_or, other]

theorem exists_mem_write {P : α → Prop} (other : ¬P slash) {components : List (Component α)} :
    (∃ a ∈ write components, P a) ↔ ∃ c ∈ components, ∃ a ∈ c.written, P a := by
  have names : (∃ a ∈ joinNames (components.map Component.written), P a) ↔
      ∃ c ∈ components, ∃ a ∈ c.written, P a := by
    rw [exists_mem_joinNames other]
    simp
  cases components with
  | nil => simp [write, joinNames]
  | cons c rest =>
    cases c with
    | root =>
      rw [write, List.exists_mem_cons_iff, exists_mem_joinNames other]
      simp [other, Component.written]
    | _ => exact names

variable [DecidableEq α]

theorem absolutize_gather (apart : (slash : α) ≠ dot) (path cwd : List α) :
    posix.absolutize path cwd = write (posix.gather path cwd).reverse :=
  join_settled apart (gather_settled path cwd).1

end Writing

section Encoding

variable {path cwd : Text} {bytes directory : Bytes}

theorem components_rel (encoded : Text.encode? path = some bytes) :
    List.Forall₂ (Component.Rel fun text bytes => Text.encode? text = some bytes)
      (posix.components path) (posix.components bytes) :=
  (components_alike encoded).imp fun _ _ => Component.encode?_iff_rel.1

theorem gather_encode? (encoded : Text.encode? path = some bytes)
    (directories : Text.encode? cwd = some directory) :
    List.Forall₂ (fun c d => Component.encode? c = some d) (posix.gather path cwd)
      (posix.gather bytes directory) :=
  (gathered_rel (components_rel encoded) (components_rel directories)).imp fun _ _ =>
    Component.encode?_iff_rel.2

/-- Text is resolved to what its bytes are resolved to. -/
theorem absolutize_encode? (encoded : Text.encode? path = some bytes)
    (directories : Text.encode? cwd = some directory) :
    Text.encode? (posix.absolutize path cwd) = some (posix.absolutize bytes directory) := by
  rw [absolutize_gather slash_ne_dot_text, absolutize_gather slash_ne_dot_bytes]
  exact write_encode? (List.rel_reverse (gather_encode? encoded directories))

/-- Nothing but the letters of what is left of a path keeps it from being written in bytes. -/
theorem resolve_error_iff : (∃ stretch, posix.resolve path cwd = .error stretch) ↔
    ∃ c ∈ posix.gather path cwd, ∃ a ∈ c.written, a.CarriesNothing := by
  have bare : ¬CodePoint.CarriesNothing slash := CodePoint.not_carriesNothing_ascii '/'
  have letters : (∃ c ∈ posix.gather path cwd, ∃ a ∈ c.written, a.CarriesNothing) ↔
      ∃ a ∈ posix.absolutize path cwd, a.CarriesNothing := by
    rw [absolutize_gather slash_ne_dot_text, exists_mem_write bare]
    simp
  rw [letters, ← Text.encode?_eq_none_iff, resolve, keyOf, Text.encode]
  cases Text.encode? (posix.absolutize path cwd) <;> simp [Except.map]

/-- From a directory without `..` that does not begin with a `.`, what is left of a path are the names
on its way that no `..` cancels, so it is their letters that count. -/
theorem resolve_error_survivors (down : [dot, dot] ∉ splitAt (· = slash) cwd)
    (bare : (splitAt (· = slash) cwd).head? ≠ some [dot]) :
    (∃ stretch, posix.resolve path cwd = .error stretch) ↔
      ∃ name ∈ survivors (way path cwd), ∃ a ∈ name, a.CarriesNothing := by
  have left : ∀ c, c ∈ posix.gather path cwd ↔
      c ∈ (if path.head? = some slash ∨ cwd.head? = some slash then [.root] else []) ∨
        ∃ name ∈ survivors (way path cwd), .name name = c := by
    intro c
    rw [← List.mem_map, ← List.mem_append, ← gather_survivors down bare, List.mem_reverse]
  rw [resolve_error_iff]
  constructor
  · rintro ⟨c, member, a, inside, nothing⟩
    rcases (left c).1 member with root | ⟨name, survives, rfl⟩
    · have lead : c = .root := by
        split at root
        · exact List.mem_singleton.1 root
        · exact absurd root List.not_mem_nil
      rw [lead] at inside
      exact absurd inside List.not_mem_nil
    · exact ⟨name, survives, a, inside, nothing⟩
  · rintro ⟨name, survives, a, inside, nothing⟩
    exact ⟨.name name, (left _).2 (.inr ⟨name, survives, rfl⟩), a, inside, nothing⟩

theorem resolveGiven_encode? {given dir : GivenPath} (read : given.asText = .ok path)
    (readDir : dir.asText = .ok cwd) (encoded : Text.encode? path = some bytes)
    (directories : Text.encode? cwd = some directory) :
    posix.resolveGiven given dir = .ok (posix.absolutize bytes directory) := by
  rw [resolveGiven_eq read readDir, resolve_posix.2 (absolutize_encode? encoded directories)]
  rfl

end Encoding

/-- A byte path has a key in any directory, which is what resolving the bytes themselves gives. A text
path has one unless a component that is left of it cannot be written in bytes; and if the path and the
directory have bytes, it is the key of those. -/
theorem resolve_lossless :
    (∀ path cwd : Bytes,
      posix.resolveGiven (.bytes path) (.bytes cwd) = .ok (posix.absolutize path cwd)) ∧
    (∀ path cwd : Text,
      ((∃ stretch, posix.resolveGiven (.text path) (.text cwd) =
          .error (.fault (.unencodable stretch))) ↔
        ∃ c ∈ posix.gather path cwd, ∃ a ∈ c.written, a.CarriesNothing) ∧
      ((∃ key, posix.resolveGiven (.text path) (.text cwd) = .ok key) ↔
        ¬∃ c ∈ posix.gather path cwd, ∃ a ∈ c.written, a.CarriesNothing)) ∧
    ∀ (path cwd : Text) (bytes directory : Bytes), Text.encode? path = some bytes →
      Text.encode? cwd = some directory →
      posix.resolveGiven (.text path) (.text cwd) =
        posix.resolveGiven (.bytes bytes) (.bytes directory) := by
  refine ⟨?_, ?_, ?_⟩
  · intro path cwd
    exact resolveGiven_encode? rfl rfl (Text.encode?_decode path) (Text.encode?_decode cwd)
  · intro path cwd
    rw [resolveGiven_eq rfl rfl, ← resolve_error_iff]
    cases posix.resolve path cwd <;> simp [Except.mapError]
  · intro path cwd bytes directory encoded directories
    rw [resolveGiven_encode? rfl rfl encoded directories,
      resolveGiven_encode? rfl rfl (Text.encode?_decode bytes) (Text.encode?_decode directory)]

/-- Two stray bytes that together spell a letter have the key of that letter. -/
theorem stray_bytes_spell_letter :
    Text.encode? [CodePoint.ofStrayByte 0xC3, CodePoint.ofStrayByte 0xA9] = some [0xC3, 0xA9] ∧
      Text.encode? (Text.ofString "/lib") = some (Bytes.ofString "/lib") ∧
      posix.resolveGiven (.text [CodePoint.ofStrayByte 0xC3, CodePoint.ofStrayByte 0xA9])
        (.text (Text.ofString "/lib")) = .ok (Bytes.ofString "/lib/é") := by
  obtain ⟨asBytes, _, asText⟩ := resolve_lossless
  have stray : Text.encode? [CodePoint.ofStrayByte 0xC3, CodePoint.ofStrayByte 0xA9] =
      some [0xC3, 0xA9] := by decide
  have directory : Text.encode? (Text.ofString "/lib") = some (Bytes.ofString "/lib") := by decide
  have key : posix.absolutize [0xC3, 0xA9] (Bytes.ofString "/lib") = Bytes.ofString "/lib/é" := by
    decide
  refine ⟨stray, directory, ?_⟩
  rw [asText _ _ _ _ stray directory, asBytes, key]

end Flavor

end Loadable
