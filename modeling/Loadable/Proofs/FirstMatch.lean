import Loadable.Fault.Report
import Loadable.Proofs.Arrival
import Loadable.Proofs.Calls
import Mathlib.Control.Monad.Basic
/-!
Search paths: the first root that has a path answers every question about it, just as the root's own
store would. The registry is asked before that, and root by root, too.
-/
namespace Loadable

namespace Store

variable {s : Store} {path : GivenPath} {root : Text} {roots : List Text} {key : Key} {w : World}

def logFound (s : Store) (root : Text) (key : Key) : Act Unit :=
  s.log .debug .searchPath (("Found " : Text) ++ key.display ++ (" under " : Text) ++ root)

def NoneHas (s : Store) (roots : List Text) (path : GivenPath) (w : World) : Prop :=
  ∀ root ∈ roots, ((s.nativeAt root).contains path w).1 = .ok false

/-- The root has the path, and none of those before it has. -/
def IsFirst (s : Store) (roots : List Text) (path : GivenPath) (w : World) (root : Text) : Prop :=
  ∃ before after, roots = before ++ root :: after ∧ s.NoneHas before path w ∧
    ((s.nativeAt root).contains path w).1 = .ok true

theorem isFirst_cons (found : ((s.nativeAt root).contains path w).1 = .ok true) :
    s.IsFirst (root :: roots) path w root :=
  ⟨[], roots, rfl, fun _ none => absurd none List.not_mem_nil, found⟩

def hasKey (key : Key) (w : World) : Bool :=
  w.tables.hooks.contains key || w.host.pathExists key

section Native

variable (resolved : (s.nativeAt root).ownKey path = .ok key)

include resolved

theorem contains_native (w : World) :
    (s.nativeAt root).contains path w = (.ok (hasKey key w), w) := by
  rw [(leadsTo_ownKey (.inr rfl) resolved).contains_eq]
  rfl

theorem findIn_cons (roots : List Text) (w : World) :
    s.findIn path (root :: roots) w =
      if hasKey key w then (.ok (some (root, key)), (s.logFound root key w).2)
      else s.findIn path roots w := by
  have asked : OnHost.contains key w = (.ok (hasKey key w), w) := rfl
  rw [findIn, resolved]
  simp only [Act.of, Act.bind_apply, Act.pure_apply, asked]
  cases hasKey key w <;> rfl

end Native

section Find

variable (resolves : ∀ root ∈ roots, ∃ key, (s.nativeAt root).ownKey path = .ok key)

include resolves

theorem findIn_none (missed : s.NoneHas roots path w) : s.findIn path roots w = (.ok none, w) := by
  induction roots with
  | nil => rfl
  | cons root roots ih =>
    obtain ⟨key, resolved⟩ := resolves root List.mem_cons_self
    have absent := missed root List.mem_cons_self
    simp only [contains_native resolved, Except.ok.injEq] at absent
    rw [findIn_cons resolved, absent]
    exact ih (fun other member => resolves other (List.mem_cons_of_mem root member))
      fun other member => missed other (List.mem_cons_of_mem root member)

theorem noneHas_of_no_first (nowhere : ¬∃ root, s.IsFirst roots path w root) :
    s.NoneHas roots path w := by
  induction roots with
  | nil => exact fun root member => absurd member List.not_mem_nil
  | cons root roots ih =>
    obtain ⟨key, resolved⟩ := resolves root List.mem_cons_self
    have absent : ((s.nativeAt root).contains path w).1 = .ok false := by
      rw [contains_native resolved]
      cases found : hasKey key w with
      | false => rfl
      | true =>
        refine absurd ⟨root, [], roots, rfl, fun other none => absurd none List.not_mem_nil, ?_⟩ nowhere
        rw [contains_native resolved, found]
    have later : s.NoneHas roots path w := by
      refine ih (fun other member => resolves other (List.mem_cons_of_mem root member)) ?_
      rintro ⟨first, before, after, rfl, missed, found⟩
      refine nowhere ⟨first, root :: before, after, rfl, ?_, found⟩
      intro other member
      rcases List.mem_cons.1 member with rfl | member
      · exact absent
      · exact missed other member
    intro other member
    rcases List.mem_cons.1 member with rfl | member
    · exact absent
    · exact later other member

/-- The walk through the roots stops at the first one that has the path, and notes it. -/
theorem findIn_first (first : s.IsFirst roots path w root)
    (resolved : (s.nativeAt root).ownKey path = .ok key) :
    s.findIn path roots w = (.ok (some (root, key)), (s.logFound root key w).2) := by
  obtain ⟨before, after, rfl, missed, found⟩ := first
  induction before with
  | nil =>
    simp only [contains_native resolved, Except.ok.injEq] at found
    rw [List.nil_append, findIn_cons resolved, found]
    rfl
  | cons other before ih =>
    obtain ⟨own, resolvedOther⟩ := resolves other List.mem_cons_self
    have absent := missed other List.mem_cons_self
    simp only [contains_native resolvedOther, Except.ok.injEq] at absent
    rw [List.cons_append, findIn_cons resolvedOther, absent]
    exact ih (fun next member => resolves next (List.mem_cons_of_mem other member))
      fun next member => missed next (List.mem_cons_of_mem other member)

end Find

theorem contains_unresolved {raised : Raised}
    (failed : (s.nativeAt root).ownKey path = .error raised) (w : World) :
    ((s.nativeAt root).contains path w).1 = .error raised := by
  change ((Act.of ((s.nativeAt root).ownKey path) >>= _) w).1 = _
  rw [failed]
  rfl

theorem ownKey_of_contains {yes : Bool}
    (answer : ((s.nativeAt root).contains path w).1 = .ok yes) :
    ∃ key, (s.nativeAt root).ownKey path = .ok key ∧ hasKey key w = yes := by
  cases resolved : (s.nativeAt root).ownKey path with
  | error raised =>
    rw [contains_unresolved resolved] at answer
    cases answer
  | ok key =>
    rw [contains_native resolved] at answer
    cases answer
    exact ⟨key, rfl, rfl⟩

theorem findIn_isFirst (first : s.IsFirst roots path w root) :
    ∃ key, (s.nativeAt root).ownKey path = .ok key ∧ hasKey key w = true ∧
      s.findIn path roots w = (.ok (some (root, key)), (s.logFound root key w).2) := by
  obtain ⟨before, after, rfl, missed, found⟩ := first
  obtain ⟨key, resolved, there⟩ := ownKey_of_contains found
  refine ⟨key, resolved, there, ?_⟩
  induction before with
  | nil =>
    rw [List.nil_append, findIn_cons resolved, there]
    rfl
  | cons other before ih =>
    obtain ⟨own, resolvedOther, absent⟩ := ownKey_of_contains (missed other List.mem_cons_self)
    rw [List.cons_append, findIn_cons resolvedOther, absent]
    exact ih fun next member => missed next (List.mem_cons_of_mem other member)

theorem findOrRaise_ok {found : Text × Key} {after : World} :
    s.findOrRaise roots path w = (.ok found, after) ↔
      s.findIn path roots w = (.ok (some found), after) := by
  rw [findOrRaise, Act.bind_apply]
  cases s.findIn path roots w with
  | mk result middle =>
    cases result with
    | error raised => simp
    | ok found =>
      cases found with
      | some other => simp
      | none => cases path.asText <;> simp [Act.bind_apply, Act.ofMishap, Act.raise]

theorem findOrRaise_none {shown : Text} (usable : path.asText = .ok shown)
    (missed : s.findIn path roots w = (.ok none, w)) :
    s.findOrRaise roots path w = (.error (.fault (.inNoRoot shown roots)), w) := by
  simp [findOrRaise, Act.bind_apply, missed, usable, Act.ofMishap, Act.raise]

theorem findIn_some {found : Text × Key} {after : World}
    (ran : s.findIn path roots w = (.ok (some found), after)) :
    found.1 ∈ roots ∧ (s.nativeAt found.1).ownKey path = .ok found.2 := by
  induction roots with
  | nil => cases ran
  | cons root roots ih =>
    cases resolved : (s.nativeAt root).ownKey path with
    | error raised =>
      rw [findIn, resolved] at ran
      cases ran
    | ok key =>
      rw [findIn_cons resolved] at ran
      split at ran
      · cases ran
        exact ⟨List.mem_cons_self, resolved⟩
      · obtain ⟨member, own⟩ := ih ran
        exact ⟨List.mem_cons_of_mem root member, own⟩

theorem findIn_there {found : Text × Key} {after : World}
    (ran : s.findIn path roots w = (.ok (some found), after)) : hasKey found.2 w = true := by
  induction roots with
  | nil => cases ran
  | cons root roots ih =>
    cases resolved : (s.nativeAt root).ownKey path with
    | error raised =>
      rw [findIn, resolved] at ran
      cases ran
    | ok key =>
      rw [findIn_cons resolved] at ran
      split at ran
      case isTrue there =>
        cases ran
        exact there
      case isFalse => exact ih ran

theorem registeredIn_cons (resolved : (s.nativeAt root).ownKey path = .ok key) (roots : List Text)
    (w : World) :
    s.registeredIn path (root :: roots) w =
      match w.host.featureKey s.flavor key with
      | .error mishap => (.error (.mishap mishap), w)
      | .ok feature =>
        if w.tables.features.isLoaded feature then (.ok (some (key, feature)), w)
        else s.registeredIn path roots w := by
  rw [registeredIn, resolved]
  simp only [Act.of, Act.bind_apply, Act.pure_apply, OnHost.featureKey, Act.world]
  cases w.host.featureKey s.flavor key with
  | error mishap => rfl
  | ok feature =>
    simp only [Act.ofMishap, Act.pure_apply]
    cases w.tables.features.isLoaded feature <;> rfl

theorem registeredIn_unchanged (s : Store) (path : GivenPath) (roots : List Text) (w : World) :
    (s.registeredIn path roots w).2 = w := by
  induction roots with
  | nil => rfl
  | cons root roots ih =>
    cases resolved : (s.nativeAt root).ownKey path with
    | error raised =>
      rw [registeredIn, resolved]
      rfl
    | ok key =>
      rw [registeredIn_cons resolved]
      cases w.host.featureKey s.flavor key with
      | error mishap => rfl
      | ok feature =>
        simp only
        split
        · rfl
        · exact ih

theorem registeredIn_none (asked : (s.registeredIn path roots w).1 = .ok none)
    (member : root ∈ roots) (resolved : (s.nativeAt root).ownKey path = .ok key) :
    ∃ feature, w.host.featureKey s.flavor key = .ok feature ∧
      w.tables.features.isLoaded feature = false := by
  induction roots with
  | nil => cases member
  | cons other roots ih =>
    cases own : (s.nativeAt other).ownKey path with
    | error raised =>
      rw [registeredIn, own] at asked
      cases asked
    | ok ownKey =>
      rw [registeredIn_cons own] at asked
      cases named : w.host.featureKey s.flavor ownKey with
      | error mishap => simp [named] at asked
      | ok feature =>
        cases known : w.tables.features.isLoaded feature with
        | true => simp [named, known] at asked
        | false =>
          rcases List.mem_cons.1 member with rfl | later
          · rw [own, Except.ok.injEq] at resolved
            subst resolved
            exact ⟨feature, named, known⟩
          · simp only [named, known, Bool.false_eq_true, if_false] at asked
            exact ih asked later

theorem requireKey_unknown (run : ScriptRunner) {feature : Key}
    (named : w.host.featureKey s.flavor key = .ok feature)
    (unknown : w.tables.features.isLoaded feature = false) :
    ((s.nativeAt root).requireKey run key w).1 ≠ .ok .alreadyLoaded := by
  have asked : (s.nativeAt root).featureKey key w = (.ok feature, w) := by
    change (do Act.ofMishap ((← Act.world).host.featureKey s.flavor key)) w = _
    simp [Act.bind_apply, Act.world, Act.ofMishap, named]
  rw [requireKey, Act.bind_apply, asked]
  simp only [Act.recorded_apply]
  cases executed : (s.nativeAt root).execute run key w.forCall with
  | mk result after =>
    cases result with
    | error raised =>
      rw [requireFeature_failed (w := w.forCall) unknown executed]
      simp
    | ok =>
      obtain ⟨log, done⟩ := requireFeature_done (w := w.forCall) unknown executed
      rw [done]
      simp

section SearchPath

variable (kind : s.backend = .searchPath roots)

include kind

theorem isRequired_searchPath (w : World) :
    (s.isRequired path w).1 = (s.registeredIn path roots w).1.map Option.isSome := by
  simp only [isRequired, kind, Act.bind_apply]
  cases s.registeredIn path roots w with
  | mk result after => cases result <;> rfl

theorem require_searchPath (run : ScriptRunner) (w : World) :
    s.require run path w =
      match (s.registeredIn path roots w).1 with
      | .error raised => (.error raised, w)
      | .ok (some (key, feature)) =>
        (.ok .alreadyLoaded, { (s.logAlreadyLoaded .searchPath key w).2 with
          history := w.history.call (.require feature) .nothing (.ok (.outcome .alreadyLoaded)) })
      | .ok none => (s.findOrRaise roots path >>= fun found =>
          (s.nativeAt found.1).requireKey run found.2) w := by
  have left := s.registeredIn_unchanged path roots w
  simp only [require, kind, Act.bind_apply]
  cases asked : s.registeredIn path roots w with
  | mk result after =>
    rw [asked] at left
    subst left
    cases result with
    | error raised => rfl
    | ok found => cases found <;> rfl

/-- A path is required exactly if a require of it answers so, and then nothing is run. -/
theorem isRequired_iff_alreadyLoaded (run : ScriptRunner) (w : World) :
    (s.isRequired path w).1 = .ok true ↔ (s.require run path w).1 = .ok .alreadyLoaded := by
  rw [isRequired_searchPath kind, require_searchPath kind run]
  cases asked : (s.registeredIn path roots w).1 with
  | error raised => simp [Except.map]
  | ok registered =>
    cases registered with
    | some registered => simp [Except.map]
    | none =>
      simp only [Except.map, Option.isSome_none, Except.ok.injEq, Bool.false_eq_true, false_iff]
      rw [Act.bind_apply]
      cases searched : s.findOrRaise roots path w with
      | mk result middle =>
        have unchanged := (s.findOrRaise_looks roots path).quiet.eq_log searched
        cases result with
        | error raised => simp
        | ok found =>
          obtain ⟨member, resolved⟩ := findIn_some (findOrRaise_ok.1 searched)
          obtain ⟨feature, named, unknown⟩ := registeredIn_none asked member resolved
          rw [unchanged]
          exact requireKey_unknown run named unknown

/-- The first root that has a path answers for it: what the search path finds there, reads, loads or
requires is what that root's own store does, after a line in the log. Without such a root nothing is
found. The registry answers before all of that, if any root's feature is registered. -/
theorem first_match_answers {shown : Text} (usable : path.asText = .ok shown)
    (resolves : ∀ root ∈ roots, ∃ key, (s.nativeAt root).ownKey path = .ok key)
    (run : ScriptRunner) (w : World) :
    (∀ root key, s.IsFirst roots path w root → (s.nativeAt root).ownKey path = .ok key →
      let part := s.nativeAt root
      let noted := (s.logFound root key w).2
      s.contains path w = (.ok true, noted) ∧
      s.resolve path w = (.ok key, noted) ∧
      s.isDirectory path w = part.isDirectory path noted ∧
      s.read path w = part.read path noted ∧
      s.load run path w = part.load run path noted ∧
      ((s.isRequired path w).1 = .ok false →
        s.require run path w = part.require run path noted)) ∧
    ((¬∃ root, s.IsFirst roots path w root) →
      let missing := Fault.inNoRoot shown roots
      s.contains path w = (.ok false, w) ∧
      s.isDirectory path w = (.ok false, w) ∧
      s.read path w = (.error (.fault missing), w) ∧
      s.load run path w = (.error (.fault missing), w) ∧
      missing.report.kind = .notFound ∧
      missing.report.context = [(("roots" : Text), Value.list (roots.map .text))] ∧
      s.resolve path w = (s.ownKey path, w)) ∧
    ((s.isRequired path w).1 = .ok true ↔ (s.require run path w).1 = .ok .alreadyLoaded) ∧
    ((s.isRequired path w).1 = .ok true → ∃ log feature, s.require run path w =
      (.ok .alreadyLoaded, { w with
        log := log
        history := w.history.call (.require feature) .nothing (.ok (.outcome .alreadyLoaded)) })) ∧
    (∀ raised, (s.isRequired path w).1 = .error raised →
      (s.require run path w).1 = .error raised) := by
  refine ⟨?_, ?_, isRequired_iff_alreadyLoaded kind run w, ?_, ?_⟩
  · intro root key first resolved part noted
    have found := findIn_first resolves first resolved
    have searched := findOrRaise_ok.2 found
    have leads := leadsTo_ownKey (.inr rfl) resolved
    refine ⟨?_, ?_, ?_, ?_, ?_, ?_⟩
    · simp [contains, kind, Act.bind_apply, found, noted]
    · simp [resolve, kind, Act.bind_apply, found, noted]
    · rw [leads.isDirectory_eq]
      simp only [isDirectory, kind, Act.bind_apply, found]
      rfl
    · rw [leads.read_eq]
      simp only [read, kind, Act.bind_apply, searched]
      rfl
    · rw [leads.load_eq]
      simp only [load, kind, Act.bind_apply, searched, noted]
    · intro unrequired
      rw [leads.require_eq, require_searchPath kind]
      rw [isRequired_searchPath kind] at unrequired
      cases asked : (s.registeredIn path roots w).1 with
      | error raised => simp [asked, Except.map] at unrequired
      | ok registered =>
        cases registered with
        | some registered => simp [asked, Except.map] at unrequired
        | none => simp only [Act.bind_apply, searched, noted]
  · intro nowhere missing
    have missed := findIn_none resolves (noneHas_of_no_first resolves nowhere)
    have searched := findOrRaise_none usable missed
    refine ⟨?_, ?_, ?_, ?_, rfl, rfl, ?_⟩
    · simp [contains, kind, Act.bind_apply, missed]
    · simp [isDirectory, kind, Act.bind_apply, missed]
    · simp [read, kind, Act.bind_apply, searched, missing]
    · simp [load, kind, Act.bind_apply, searched, missing]
    · simp only [resolve, kind, Act.bind_apply, missed]
      cases s.ownKey path <;> rfl
  · intro required
    rw [isRequired_searchPath kind] at required
    rw [require_searchPath kind]
    cases asked : (s.registeredIn path roots w).1 with
    | error raised => simp [asked, Except.map] at required
    | ok registered =>
      cases registered with
      | none => simp [asked, Except.map] at required
      | some registered => exact ⟨_, registered.2, rfl⟩
  · intro raised failed
    rw [isRequired_searchPath kind] at failed
    rw [require_searchPath kind]
    cases asked : (s.registeredIn path roots w).1 with
    | error other => simpa [asked, Except.map] using failed
    | ok found => simp [asked, Except.map] at failed

end SearchPath

/-- A source below the second of two roots. -/
theorem second_root_answers :
    let s : Store := ⟨.posix, ("/lib" : Text), .searchPath [("/lib" : Text), ("/app" : Text)]⟩
    let path : GivenPath := .text ("a.rb" : Text)
    let app := Bytes.ofString "app"
    let w : World := { host := { nodes := [
      ([app], .directory 0o755), ([app, Bytes.ofString "a.rb"], .file (Bytes.ofString "x = 1") 0o644)] } }
    s.IsFirst [("/lib" : Text), ("/app" : Text)] path w ("/app" : Text) ∧
      (s.read path w).1 = .ok (Bytes.ofString "x = 1") := by
  intro s path app w
  have missed : s.NoneHas [("/lib" : Text)] path w := by
    intro root member
    rw [List.mem_singleton.1 member]
    decide +kernel
  have first : s.IsFirst [("/lib" : Text), ("/app" : Text)] path w ("/app" : Text) :=
    ⟨[("/lib" : Text)], [], rfl, missed, by decide +kernel⟩
  have resolved : (s.nativeAt ("/app" : Text)).ownKey path = .ok (Bytes.ofString "/app/a.rb") := by
    decide +kernel
  have resolves : ∀ root ∈ [("/lib" : Text), ("/app" : Text)],
      ∃ key, (s.nativeAt root).ownKey path = .ok key := by
    intro root member
    rcases List.mem_cons.1 member with rfl | member
    · exact ⟨Bytes.ofString "/lib/a.rb", by decide +kernel⟩
    · rw [List.mem_singleton.1 member]
      exact ⟨_, resolved⟩
  obtain ⟨answers, _⟩ := first_match_answers rfl rfl resolves
    (fun _ => pure ()) w
  obtain ⟨_, _, _, read, _⟩ := answers _ _ first resolved
  refine ⟨first, ?_⟩
  rw [read]
  decide +kernel

end Store

end Loadable
