import Loadable.Proofs.Drives
/-!
One path in both flavors. In a directory on a drive an `nt` path gathers what a `posix` path gathers in
the same directory without the drive, as long as no `..` is met at the root: there `posix` stays and
`nt` goes on to the bare drive. Until then the two keys differ by the drive in front.
-/
namespace Loadable

theorem Text.decode_ascii_cons {c : Char} (ascii : c.toNat < 0x80) (bytes : Bytes) :
    Text.decode (PathLetter.ascii c :: bytes) = PathLetter.ascii c :: Text.decode bytes := by
  have single := CodePoint.utf8EncodeChar_ascii ascii
  have leads := Bytes.leadingChar?_append c bytes
  have size : c.utf8Size = 1 := by
    rw [← String.length_utf8EncodeChar, single]
    rfl
  rw [single, List.singleton_append] at leads
  rw [decode, decodeFrom, leads]
  simp only [size]
  rfl

namespace GivenPath

def onDrive (x : Char) : GivenPath → GivenPath
  | text t => text (.scalar x :: colon :: t)
  | bytes b => bytes (PathLetter.ascii x :: colon :: b)
  | unusable typeName => unusable typeName

theorem asText_onDrive {x : Char} (small : x.toNat < 0x80) {path : GivenPath} {t : Text}
    (read : path.asText = .ok t) : (path.onDrive x).asText = .ok (.scalar x :: colon :: t) := by
  cases path with
  | text t =>
    cases read
    rfl
  | bytes b =>
    cases read
    have mark : (':' : Char).toNat < 0x80 := by decide
    exact congrArg Except.ok ((Text.decode_ascii_cons small _).trans
      (congrArg _ (Text.decode_ascii_cons mark b)))
  | unusable typeName => cases read

end GivenPath

namespace Flavor

section Gathering

variable {α : Type}

theorem advance_onDrive {c : Component α} (leads : c.LeadsOn) (drive : List α)
    (above : List (Component α)) (kept : c = .up → above ≠ []) :
    ∃ next, advance false (above ++ [.root]) c = next ++ [.root] ∧
      advance false (above ++ [.root, .drive drive]) c = next ++ [.root, .drive drive] ∧
      ∀ d ∈ next, d ∈ above ∨ d = c := by
  cases c with
  | here => exact ⟨above, rfl, rfl, fun d member => .inl member⟩
  | name text =>
    refine ⟨.name text :: above, rfl, rfl, fun d member => ?_⟩
    exact (List.mem_cons.1 member).symm
  | up =>
    cases above with
    | nil => exact absurd rfl (kept rfl)
    | cons last above =>
      refine ⟨above, ?_, ?_, fun d member => .inl (List.mem_cons_of_mem last member)⟩
      · simp [advance]
      · simp [advance]
  | drive text => exact leads.elim
  | root => exact leads.elim

theorem foldl_onDrive {path : List (Component α)} (leads : ∀ c ∈ path, c.LeadsOn) (drive : List α)
    (above : List (Component α))
    (kept : ∀ before after, path = before ++ .up :: after →
      before.foldl (advance false) (above ++ [.root]) ≠ [.root]) :
    ∃ more, path.foldl (advance false) (above ++ [.root]) = more ++ [.root] ∧
      path.foldl (advance false) (above ++ [.root, .drive drive]) = more ++ [.root, .drive drive] ∧
      ∀ d ∈ more, d ∈ above ∨ d ∈ path := by
  induction path generalizing above with
  | nil => exact ⟨above, rfl, rfl, fun d member => .inl member⟩
  | cons c path ih =>
    -- What lies below the root is out of reach as long as no `..` is met at the root.
    have first : c = .up → above ≠ [] := by
      rintro rfl rfl
      exact kept [] path rfl rfl
    obtain ⟨next, one, two, fromFirst⟩ :=
      advance_onDrive (leads c List.mem_cons_self) drive above first
    have later : ∀ before after, path = before ++ .up :: after →
        before.foldl (advance false) (next ++ [.root]) ≠ [.root] := by
      intro before after whole
      rw [← one, ← List.foldl_cons]
      exact kept (c :: before) after (congrArg (c :: ·) whole)
    obtain ⟨more, rooted, onDrive, origin⟩ :=
      ih (fun d member => leads d (List.mem_cons_of_mem c member)) next later
    refine ⟨more, by rw [List.foldl_cons, one, rooted], by rw [List.foldl_cons, two, onDrive], ?_⟩
    intro d member
    rcases origin d member with before | inside
    · rcases fromFirst d before with inside | rfl
      · exact .inl inside
      · exact .inr List.mem_cons_self
    · exact .inr (List.mem_cons_of_mem c inside)

end Gathering

section Reading

theorem splitAt_congr {α : Type} {f g : α → Bool} {path : List α} (same : ∀ a ∈ path, f a = g a) :
    splitAt f path = splitAt g path := by
  induction path with
  | nil => rfl
  | cons a path ih =>
    rw [splitAt, splitAt, same a List.mem_cons_self,
      ih fun b member => same b (List.mem_cons_of_mem a member)]

variable {path : Text}

theorem isSeparator_of_clear (clear : backslash ∉ path) :
    ∀ a ∈ path, nt.isSeparator a = posix.isSeparator a := by
  intro a member
  have other : a ≠ backslash := fun same => clear (same ▸ member)
  simp [isSeparator, other]

theorem components_posix_levels {rest : Text} (clear : backslash ∉ rest) :
    posix.components (slash :: rest) = .root :: levels rest := by
  rw [components_rooted, levels, splitAt_congr (isSeparator_of_clear clear)]

theorem components_flavors (bare : (nt.splitDrive path).1 = []) (clear : backslash ∉ path) :
    nt.components path = posix.components path := by
  have rooted : nt.startsRooted path = posix.startsRooted path := by
    cases path with
    | nil => rfl
    | cons a path => exact isSeparator_of_clear clear a List.mem_cons_self
  rw [components_bare bare, components_posix, rooted, splitAt_congr (isSeparator_of_clear clear)]

end Reading

/-- No `..` of the path is met at the root. -/
def KeepsRoot (path cwd : Text) : Prop :=
  ∀ before after, posix.components path = before ++ .up :: after →
    before.foldl (advance false) (posix.components cwd).reverse ≠ [.root]

section Keys

variable {text dir : Text}

/-- What is left of the path stands behind the root in one flavor and behind the drive and its root in
the other. -/
theorem exists_left (x : CodePoint) {rest : Text} (follows : ∀ c ∈ posix.components text, Follows c)
    (bare : (nt.splitDrive text).1 = []) (clear : backslash ∉ text) (clearRest : backslash ∉ rest)
    (kept : KeepsRoot text (slash :: rest)) :
    ∃ left : List (Component CodePoint), (∀ c ∈ left, c.Stands nt) ∧
      posix.absolutize text (slash :: rest) = slash :: joinNames (left.map Component.written) ∧
      nt.absolutize text (x :: colon :: slash :: rest) =
        nt.join (.drive [x, colon] :: .root :: left) := by
  have leads : ∀ c ∈ posix.components text, c.LeadsOn := fun c member => (follows c member).leadsOn
  have same := components_flavors bare clear
  have directory := components_posix_levels clearRest
  have reversed : (posix.components (slash :: rest)).reverse = (levels rest).reverse ++ [.root] := by
    rw [directory, List.reverse_cons]
  obtain ⟨more, below, onDrive, origin⟩ := foldl_onDrive leads [x, colon] (levels rest).reverse
    fun before after whole => reversed ▸ kept before after whole
  refine ⟨more.reverse, fun c member => ?_, ?_, ?_⟩
  · rcases origin c (List.mem_reverse.1 member) with above | inside
    · exact stands_of_mem_levels (List.mem_reverse.1 above)
    · rcases stands_of_bare bare (same ▸ inside) with rfl | stands
      · exact (leads .root inside).elim
      · exact stands
  · rw [absolutize_gather slash_ne_dot_text, gather_unrooted follows directory, below,
      List.reverse_append]
    rfl
  · have separates : nt.isSeparator (slash : CodePoint) = true := by decide
    rw [absolutize_onDrive (same ▸ leads) x separates, same, onDrive, List.reverse_append]
    rfl

theorem absolutize_flavors (x : CodePoint) (absolute : posix.isAbsolute dir = true)
    (relative : posix.isAbsolute text = false) (bare : (nt.splitDrive text).1 = [])
    (clear : backslash ∉ text) (clearDir : backslash ∉ dir) (kept : KeepsRoot text dir) :
    List.Forall₂ SlashAlike (nt.absolutize text (x :: colon :: dir))
        (x :: colon :: posix.absolutize text dir) ∧
      backslash ∉ posix.absolutize text dir := by
  obtain ⟨rest, rfl⟩ : ∃ rest, dir = slash :: rest := by
    rw [isAbsolute_eq, startsRooted_iff, List.head?_eq_some_iff] at absolute
    exact absolute
  have follows : ∀ c ∈ posix.components text, Follows c :=
    follows_of_unrooted ((isAbsolute_eq text).symm.trans relative)
  have clearRest : backslash ∉ rest := fun member => clearDir (List.mem_cons_of_mem slash member)
  obtain ⟨left, stands, rooted, driven⟩ := exists_left x follows bare clear clearRest kept
  rw [rooted, driven]
  exact ⟨join_onDrive x stands, backslash_not_mem_rooted stands⟩

end Keys

/-- A relative path in a directory on a drive has the key that it has in the same directory without
the drive, behind the drive, unless it meets a `..` at the root. If what is left of it cannot be written
in bytes, it has no key in either. -/
theorem resolveGiven_onDrive {x : Char} (letter : x.isAlpha = true) {path cwd : GivenPath}
    {text dir : Text} (read : path.asText = .ok text) (readCwd : cwd.asText = .ok dir)
    (absolute : posix.isAbsolute dir = true) (relative : posix.isAbsolute text = false)
    (bare : (nt.splitDrive text).1 = []) (clear : backslash ∉ text) (clearDir : backslash ∉ dir)
    (kept : KeepsRoot text dir) :
    (∃ key, posix.resolveGiven path cwd = .ok key ∧
      nt.resolveGiven path (cwd.onDrive x) = .ok (PathLetter.ascii x :: colon :: key)) ∨
    ∃ stretch other, posix.resolveGiven path cwd = .error (.fault (.unencodable stretch)) ∧
      nt.resolveGiven path (cwd.onDrive x) = .error (.fault (.unencodable other)) := by
  have readDriven := GivenPath.asText_onDrive (ascii_of_isAlpha letter).1 readCwd
  obtain ⟨alike, clearKey⟩ :=
    absolutize_flavors (.scalar x) absolute relative bare clear clearDir kept
  rcases keyOf_alike alike with ⟨key, driven, spelled⟩ | ⟨other, _, driven, spelled⟩
  · obtain ⟨more, encoded, rfl⟩ := (keyOf_letter letter clearKey).1 spelled
    exact .inl ⟨more, (resolveGiven_ok read readCwd).2 (resolve_posix.2 encoded),
      (resolveGiven_ok read readDriven).2 driven⟩
  · right
    cases resolved : posix.keyOf (posix.absolutize text dir) with
    | ok key =>
      rw [(keyOf_letter letter clearKey).2 ⟨key, resolve_posix.1 resolved, rfl⟩] at spelled
      cases spelled
    | error stretch =>
      exact ⟨stretch, other, (resolveGiven_error read readCwd).2 resolved,
        (resolveGiven_error read readDriven).2 driven⟩

/-- A letter and a colon that do not stand in front are no drive. -/
theorem name_like_drive :
    ('C'.isAlpha = true ∧ posix.isAbsolute (Text.ofString "/a/d") = true ∧
      posix.isAbsolute (Text.ofString "x/../../b:/c") = false ∧
      (nt.splitDrive (Text.ofString "x/../../b:/c")).1 = [] ∧
      backslash ∉ Text.ofString "x/../../b:/c" ∧ backslash ∉ Text.ofString "/a/d" ∧
      KeepsRoot (Text.ofString "x/../../b:/c") (Text.ofString "/a/d")) ∧
      posix.resolveGiven (.text (Text.ofString "x/../../b:/c")) (.text (Text.ofString "/a/d")) =
        .ok (Bytes.ofString "/a/b:/c") ∧
      nt.resolveGiven (.text (Text.ofString "x/../../b:/c"))
        ((GivenPath.text (Text.ofString "/a/d")).onDrive 'C') = .ok (Bytes.ofString "C:/a/b:/c") := by
  have kept : KeepsRoot (Text.ofString "x/../../b:/c") (Text.ofString "/a/d") := by
    intro before after whole
    rw [show posix.components (Text.ofString "x/../../b:/c") = [.name (Text.ofString "x"), .up, .up,
      .name (Text.ofString "b:"), .name (Text.ofString "c")] by decide] at whole
    rcases before with _ | ⟨_, _ | ⟨_, _ | ⟨_, _ | ⟨_, _ | ⟨_, _ | _⟩⟩⟩⟩⟩ <;> cases whole <;> decide
  have letter : 'C'.isAlpha = true := by decide
  have absolute : posix.isAbsolute (Text.ofString "/a/d") = true := by decide
  have relative : posix.isAbsolute (Text.ofString "x/../../b:/c") = false := by decide
  have bare : (nt.splitDrive (Text.ofString "x/../../b:/c")).1 = [] := by decide
  have clear : backslash ∉ Text.ofString "x/../../b:/c" := by decide
  have clearDir : backslash ∉ Text.ofString "/a/d" := by decide
  have found : posix.resolveGiven (.text (Text.ofString "x/../../b:/c"))
      (.text (Text.ofString "/a/d")) = .ok (Bytes.ofString "/a/b:/c") := by decide
  refine ⟨⟨letter, absolute, relative, bare, clear, clearDir, kept⟩, found, ?_⟩
  have given (name : String) :
      (GivenPath.text (Text.ofString name)).asText = .ok (Text.ofString name) := rfl
  rcases resolveGiven_onDrive letter (given _) (given _) absolute relative bare clear clearDir kept with
    ⟨key, one, two⟩ | ⟨_, _, one, _⟩
  · rw [found, Except.ok.injEq] at one
    rw [two, ← one]
    rfl
  · rw [found] at one
    cases one

end Flavor

end Loadable
