import Loadable.Proofs.HostText
/-!
Slashes and backslashes in `nt` paths. Paths that differ only in which of the two separates their pieces
have the same key, whatever drives they name: each step of resolving takes paths that are alike to
paths that are alike, and the key no longer tells the two apart.
-/
namespace Loadable

namespace Flavor

/-- The letters are the same, or each of them is a slash or a backslash. -/
def SlashAlike (a b : CodePoint) : Prop :=
  a = b ∨ (nt.isSeparator a = true ∧ nt.isSeparator b = true)

instance : DecidableRel SlashAlike := fun a b =>
  inferInstanceAs (Decidable (a = b ∨ (nt.isSeparator a = true ∧ nt.isSeparator b = true)))

namespace SlashAlike

variable {a b : CodePoint}

theorem refl (a : CodePoint) : SlashAlike a a := .inl rfl

theorem isSeparator_eq (alike : SlashAlike a b) :
    nt.isSeparator a = nt.isSeparator b := by
  rcases alike with rfl | ⟨first, second⟩
  · rfl
  · rw [first, second]

theorem eq_of_clear (alike : SlashAlike a b) (clear : nt.isSeparator a = false) : a = b := by
  rcases alike with same | ⟨separates, _⟩
  · exact same
  · rw [separates] at clear
    cases clear

theorem eq_iff {c : CodePoint} (clear : nt.isSeparator c = false) (alike : SlashAlike a b) :
    a = c ↔ b = c := by
  constructor
  · rintro rfl
    exact (alike.eq_of_clear clear).symm
  · rintro rfl
    exact alike.eq_of_clear (alike.isSeparator_eq.trans clear)

end SlashAlike

variable {path other : Text}

theorem slashAlike_refl (path : Text) : List.Forall₂ SlashAlike path path :=
  List.forall₂_same.2 fun a _ => .refl a

theorem takeWhile_alike (alike : List.Forall₂ SlashAlike path other) :
    (path.takeWhile fun a => !nt.isSeparator a) =
      other.takeWhile fun a => !nt.isSeparator a := by
  induction alike with
  | nil => rfl
  | @cons a b _ _ first _ ih =>
    rw [List.takeWhile_cons, List.takeWhile_cons, ← first.isSeparator_eq, ih]
    cases separates : nt.isSeparator a with
    | true => rfl
    | false => rw [first.eq_of_clear separates]

theorem splitAt_alike (alike : List.Forall₂ SlashAlike path other) :
    splitAt nt.isSeparator path = splitAt nt.isSeparator other := by
  induction alike with
  | nil => rfl
  | @cons a b _ _ first _ ih =>
    rw [splitAt, splitAt, ← first.isSeparator_eq, ih]
    cases separates : nt.isSeparator a with
    | true => rfl
    | false => rw [first.eq_of_clear separates]

section Drives

theorem isLetter_alike (upper lower : Char) {a b : CodePoint}
    (clearUpper : nt.isSeparator (.scalar upper : CodePoint) = false)
    (clearLower : nt.isSeparator (.scalar lower : CodePoint) = false) (alike : SlashAlike a b) :
    isLetter upper lower a = isLetter upper lower b := by
  have up : a = PathLetter.ascii upper ↔ b = PathLetter.ascii upper := alike.eq_iff clearUpper
  have low : a = PathLetter.ascii lower ↔ b = PathLetter.ascii lower := alike.eq_iff clearLower
  simp only [isLetter, up, low]

theorem isVerbatimShare_alike (alike : List.Forall₂ SlashAlike path other) :
    isVerbatimShare path = isVerbatimShare other := by
  rcases alike with _ | ⟨s₁, _ | ⟨s₂, _ | ⟨q, _ | ⟨s₃, _ | ⟨u, _ | ⟨n, _ | ⟨c, _ | ⟨s₄, _⟩⟩⟩⟩⟩⟩⟩⟩
  case cons.cons.cons.cons.cons.cons.cons.cons =>
    have mark := q.eq_iff (show nt.isSeparator (PathLetter.ascii '?' : CodePoint) = false by decide)
    simp only [isVerbatimShare, List.all_cons, s₁.isSeparator_eq, s₂.isSeparator_eq, s₃.isSeparator_eq,
      s₄.isSeparator_eq, mark, isLetter_alike 'U' 'u' (by decide) (by decide) u,
      isLetter_alike 'N' 'n' (by decide) (by decide) n, isLetter_alike 'C' 'c' (by decide) (by decide) c]
  all_goals rfl

theorem splitShare_alike (lead : Nat) (alike : List.Forall₂ SlashAlike path other) :
    List.Forall₂ SlashAlike (splitShare lead path).1 (splitShare lead other).1 ∧
      List.Forall₂ SlashAlike (splitShare lead path).2 (splitShare lead other).2 := by
  -- A server and a share hold no separators, so they are the same text on both sides.
  have body := List.forall₂_drop lead alike
  have front := List.forall₂_take lead alike
  have servers := takeWhile_alike body
  have behind := List.forall₂_drop ((other.drop lead).takeWhile fun a =>
    !nt.isSeparator a).length body
  simp only [splitShare, servers]
  generalize (other.drop lead).takeWhile (fun a => !nt.isSeparator a) = server at behind ⊢
  generalize (path.drop lead).drop server.length = rest at behind ⊢
  generalize (other.drop lead).drop server.length = others at behind ⊢
  cases behind with
  | nil => exact ⟨alike, .nil⟩
  | @cons s t rest others separator later =>
    have shares := takeWhile_alike later
    have after := List.forall₂_drop (others.takeWhile fun a => !nt.isSeparator a).length later
    simp only [shares]
    generalize others.takeWhile (fun a => !nt.isSeparator a) = share at after ⊢
    generalize rest.drop share.length = ending at after ⊢
    generalize others.drop share.length = otherEnding at after ⊢
    cases after with
    | nil => exact ⟨alike, .nil⟩
    | cons first last =>
      exact ⟨List.rel_append (List.rel_append front (slashAlike_refl server))
        (.cons separator (slashAlike_refl share)), .cons first last⟩

/-- The drive and what follows it are found at the same places. -/
theorem splitDrive_alike (alike : List.Forall₂ SlashAlike path other) :
    List.Forall₂ SlashAlike (nt.splitDrive path).1 (nt.splitDrive other).1 ∧
      List.Forall₂ SlashAlike (nt.splitDrive path).2 (nt.splitDrive other).2 := by
  have verbatim := isVerbatimShare_alike alike
  rcases alike with _ | ⟨first, _ | ⟨second, rest⟩⟩
  · exact ⟨.nil, .nil⟩
  · exact ⟨.nil, .cons first .nil⟩
  · have mark := second.eq_iff (show nt.isSeparator (colon : CodePoint) = false by decide)
    simp only [splitDrive, first.isSeparator_eq, second.isSeparator_eq, verbatim, mark]
    split
    · exact splitShare_alike _ (.cons first (.cons second rest))
    split
    · exact ⟨.cons first (.cons second .nil), rest⟩
    · exact ⟨.nil, .cons first (.cons second rest)⟩

theorem isShare_alike (alike : List.Forall₂ SlashAlike path other) : isShare path = isShare other := by
  rcases alike with _ | ⟨first, _ | ⟨second, _ | _⟩⟩
  case cons.cons.cons => simp only [isShare, first.isSeparator_eq, second.isSeparator_eq]
  all_goals rfl

theorem isDriveLetter_alike (alike : List.Forall₂ SlashAlike path other) :
    isDriveLetter path = isDriveLetter other := by
  rcases alike with _ | ⟨_, _ | ⟨second, _ | _⟩⟩
  case cons.cons.nil =>
    have mark := second.eq_iff (show nt.isSeparator (colon : CodePoint) = false by decide)
    simp only [isDriveLetter, mark]
  all_goals rfl

end Drives

section Resolving

variable {cwd dir : Text}

theorem startsRooted_alike (alike : List.Forall₂ SlashAlike path other) :
    nt.startsRooted path = nt.startsRooted other := by
  cases alike with
  | nil => rfl
  | cons first _ => exact first.isSeparator_eq

theorem components_slashAlike (alike : List.Forall₂ SlashAlike path other) :
    List.Forall₂ (Component.Rel (List.Forall₂ SlashAlike)) (nt.components path)
      (nt.components other) := by
  obtain ⟨drives, rests⟩ := splitDrive_alike alike
  have pieces := splitAt_alike rests
  have rooted := startsRooted_alike rests
  have share := isShare_alike drives
  have same : ∀ components : List (Component CodePoint),
      List.Forall₂ (Component.Rel (List.Forall₂ SlashAlike)) components components := fun _ =>
    List.forall₂_same.2 fun c _ => .refl slashAlike_refl c
  unfold components
  generalize nt.splitDrive path = parts at drives rests pieces rooted share
  generalize nt.splitDrive other = otherParts at drives rests pieces rooted share
  obtain ⟨drive, rest⟩ := parts
  obtain ⟨otherDrive, otherRest⟩ := otherParts
  simp only at drives pieces rooted share
  simp only [pieces, rooted, share]
  refine List.rel_append (List.rel_append ?_ (same _)) (same _)
  cases drives with
  | nil => exact .nil
  | cons first later => exact .cons (.drive (.cons first later)) .nil

theorem needsSeparator_alike (alike : List.Forall₂ SlashAlike path other) :
    nt.needsSeparator path = nt.needsSeparator other := by
  have letter := isDriveLetter_alike alike
  have reversed := List.rel_reverse alike
  unfold needsSeparator
  rw [List.getLast?_eq_head?_reverse, List.getLast?_eq_head?_reverse, letter]
  generalize path.reverse = letters at reversed ⊢
  generalize other.reverse = others at reversed ⊢
  cases reversed with
  | nil => rfl
  | cons last _ => simp only [List.head?_cons, last.isSeparator_eq]

theorem push_alike (alike : List.Forall₂ SlashAlike path other) {c d : Component CodePoint}
    (same : Component.Rel (List.Forall₂ SlashAlike) c d) :
    List.Forall₂ SlashAlike (nt.push path c) (nt.push other d) := by
  have step : ∀ {text more : Text}, List.Forall₂ SlashAlike text more →
      List.Forall₂ SlashAlike (push.step nt path text) (push.step nt other more) := by
    intro text more texts
    unfold push.step
    rw [needsSeparator_alike alike]
    split
    · exact List.rel_append alike (.cons (.refl _) texts)
    · exact List.rel_append alike texts
  cases same with
  | drive texts => exact texts
  | root => exact List.rel_append (splitDrive_alike alike).1 (slashAlike_refl _)
  | here => exact step (slashAlike_refl _)
  | up => exact step (slashAlike_refl _)
  | name texts => exact step texts

theorem foldl_push_alike {components others : List (Component CodePoint)}
    (same : List.Forall₂ (Component.Rel (List.Forall₂ SlashAlike)) components others)
    (alike : List.Forall₂ SlashAlike path other) :
    List.Forall₂ SlashAlike (components.foldl nt.push path) (others.foldl nt.push other) := by
  induction same generalizing path other with
  | nil => exact alike
  | cons first _ ih => exact ih (push_alike alike first)

theorem absolutize_alike (paths : List.Forall₂ SlashAlike path other)
    (dirs : List.Forall₂ SlashAlike cwd dir) :
    List.Forall₂ SlashAlike (nt.absolutize path cwd) (nt.absolutize other dir) :=
  foldl_push_alike
    (List.rel_reverse (gathered_rel (components_slashAlike paths) (components_slashAlike dirs))) .nil

end Resolving

section Keys

theorem normalize_append (first rest : Bytes) :
    nt.normalize (first ++ rest) = nt.normalize first ++ nt.normalize rest := List.map_append

theorem encode?_cons_normalize (c : CodePoint) (t : Text) :
    (Text.encode? (c :: t)).map nt.normalize = (c.encode?.map nt.normalize).bind fun head =>
      ((Text.encode? t).map nt.normalize).map (head ++ ·) := by
  rw [Text.encode?]
  cases c.encode? with
  | none => rfl
  | some head =>
    cases Text.encode? t with
    | none => rfl
    | some tail => exact congrArg some (normalize_append head tail)

theorem encode?_alike (alike : List.Forall₂ SlashAlike path other) :
    (Text.encode? path).map nt.normalize = (Text.encode? other).map nt.normalize := by
  induction alike with
  | nil => rfl
  | @cons a b _ _ first _ ih =>
    have heads : (CodePoint.encode? a).map nt.normalize = (CodePoint.encode? b).map nt.normalize := by
      rcases first with rfl | ⟨one, two⟩
      · rfl
      · simp only [isSeparator, decide_eq_true_eq] at one two
        rcases one with rfl | rfl <;> rcases two with rfl | rfl <;> decide
    rw [encode?_cons_normalize, encode?_cons_normalize, heads, ih]

theorem keyOf_alike (alike : List.Forall₂ SlashAlike path other) :
    (∃ key, nt.keyOf path = .ok key ∧ nt.keyOf other = .ok key) ∨
      ∃ stretch more, nt.keyOf path = .error stretch ∧ nt.keyOf other = .error more := by
  have same := encode?_alike alike
  unfold keyOf Text.encode
  cases one : Text.encode? path with
  | none =>
    rw [one, Option.map_none, eq_comm, Option.map_eq_none_iff] at same
    rw [same]
    exact .inr ⟨_, _, rfl, rfl⟩
  | some bytes =>
    rw [one, Option.map_some, eq_comm, Option.map_eq_some_iff] at same
    obtain ⟨more, two, key⟩ := same
    rw [two]
    exact .inl ⟨_, rfl, congrArg Except.ok key⟩

end Keys

/-- Two paths and two working directories that differ only in which kind of slash stands at a place have
the same key, or neither path has one. -/
theorem resolve_slash_style {path other cwd dir : Text} (paths : List.Forall₂ SlashAlike path other)
    (dirs : List.Forall₂ SlashAlike cwd dir) :
    (∃ key, nt.resolveGiven (.text path) (.text cwd) = .ok key ∧
        nt.resolveGiven (.text other) (.text dir) = .ok key) ∨
      ∃ stretch more,
        nt.resolveGiven (.text path) (.text cwd) = .error (.fault (.unencodable stretch)) ∧
          nt.resolveGiven (.text other) (.text dir) = .error (.fault (.unencodable more)) := by
  rcases keyOf_alike (absolutize_alike paths dirs) with ⟨key, one, two⟩ | ⟨stretch, more, one, two⟩
  · left
    exact ⟨key, (resolveGiven_ok rfl rfl).2 one, (resolveGiven_ok rfl rfl).2 two⟩
  · right
    exact ⟨stretch, more, (resolveGiven_error rfl rfl).2 one, (resolveGiven_error rfl rfl).2 two⟩

/-- A share in mixed spelling and in the opposite one: the `..` leads to the share's root either way. -/
theorem share_in_either_style :
    List.Forall₂ SlashAlike (Text.ofString "..\\a/b") (Text.ofString "../a\\b") ∧
      List.Forall₂ SlashAlike (Text.ofString "\\\\?/UNC\\srv/share\\d")
        (Text.ofString "//?\\UNC/srv\\share/d") ∧
      nt.resolveGiven (.text (Text.ofString "..\\a/b"))
        (.text (Text.ofString "\\\\?/UNC\\srv/share\\d")) =
          .ok (Bytes.ofString "//?/UNC/srv/share/a/b") ∧
      nt.resolveGiven (.text (Text.ofString "../a\\b"))
        (.text (Text.ofString "//?\\UNC/srv\\share/d")) =
          .ok (Bytes.ofString "//?/UNC/srv/share/a/b") := by
  have paths : List.Forall₂ SlashAlike (Text.ofString "..\\a/b") (Text.ofString "../a\\b") := by
    decide
  have dirs : List.Forall₂ SlashAlike (Text.ofString "\\\\?/UNC\\srv/share\\d")
      (Text.ofString "//?\\UNC/srv\\share/d") := by decide
  have resolved : nt.resolveGiven (.text (Text.ofString "..\\a/b"))
      (.text (Text.ofString "\\\\?/UNC\\srv/share\\d")) =
        .ok (Bytes.ofString "//?/UNC/srv/share/a/b") := by decide
  refine ⟨paths, dirs, resolved, ?_⟩
  rcases resolve_slash_style paths dirs with ⟨key, one, two⟩ | ⟨_, _, one, _⟩
  · rw [resolved] at one
    cases one
    exact two
  · rw [resolved] at one
    cases one

end Flavor

end Loadable
