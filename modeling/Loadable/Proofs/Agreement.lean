import Loadable.Proofs.Once
/-!
Acts on two stores that agree: from worlds whose stored contents are so related they answer alike,
and they leave worlds so related. Requires and loads do if what they look up does, and the scripts
that they run.
-/
namespace Loadable

namespace Act

variable {α β : Type} {related : Stored → Stored → Prop}

/-- From worlds whose contents are so related the acts answer alike and leave such worlds. -/
def Agree (related : Stored → Stored → Prop) (x y : Act α) : Prop :=
  ∀ w v, related w.stored v.stored → (x w).1 = (y v).1 ∧ related (x w).2.stored (y v).2.stored

namespace Agree

theorem of (result : Except Raised α) : Agree related (Act.of result) (Act.of result) := by
  intro w v start
  cases result <;> exact ⟨rfl, start⟩

theorem ofFault (result : Except Fault α) :
    Agree related (Act.ofFault result) (Act.ofFault result) := by
  intro w v start
  cases result <;> exact ⟨rfl, start⟩

theorem log (level level' : LogLevel) (source source' : LogSource) (store store' : Option Text)
    (message message' : Text) :
    Agree related (Act.log level source store message) (Act.log level' source' store' message') :=
  fun _ _ start => ⟨rfl, start⟩

theorem note (e : Event) : Agree related (Act.note e) (Act.note e) :=
  fun _ _ start => ⟨rfl, start⟩

theorem bind {x y : Act α} {f g : α → Act β} (first : Agree related x y)
    (rest : ∀ a, Agree related (f a) (g a)) : Agree related (x >>= f) (y >>= g) := by
  intro w v start
  have middle := first w v start
  rw [bind_apply, bind_apply]
  cases ran : x w with
  | mk result after =>
    cases copied : y v with
    | mk result' after' =>
      rw [ran, copied] at middle
      obtain ⟨same, left⟩ := middle
      cases same
      cases result with
      | error raised => exact ⟨rfl, left⟩
      | ok a => exact rest a after after' left

theorem answer {x y : Act α} (agree : Agree related x y) (f : α → β) :
    Agree related (do return f (← x)) (do return f (← y)) :=
  agree.bind fun a => of (.ok (f a))

theorem attempt {x y : Act α} (agree : Agree related x y) :
    Agree related (Act.attempt x) (Act.attempt y) := by
  intro w v start
  obtain ⟨same, left⟩ := agree w v start
  exact ⟨congrArg Except.ok same, left⟩

theorem recorded {x y : Act α} (agree : Agree related x y) (made made' : Call)
    (answer : α → Answer) : Agree related (Act.recorded made answer x) (Act.recorded made' answer y) :=
  fun w v start => agree w.forCall v.forCall start

theorem asFile {x y : Act α} (agree : Agree related x y) (filename : Text) :
    Agree related (Act.asFile filename x) (Act.asFile filename y) :=
  fun w v start =>
    agree { w with files := filename :: w.files } { v with files := filename :: v.files } start

theorem start {x y x' y' : Act α} (agree : Agree related x' y')
    (left : ∀ w, ∃ first, first.stored = w.stored ∧ x w = x' first)
    (right : ∀ v, ∃ first, first.stored = v.stored ∧ y v = y' first) : Agree related x y := by
  intro w v held
  obtain ⟨first, sameLeft, runsLeft⟩ := left w
  obtain ⟨second, sameRight, runsRight⟩ := right v
  rw [runsLeft, runsRight]
  exact agree first second (by rwa [sameLeft, sameRight])

theorem world {f g : World → Act α}
    (rest : ∀ u z : World, related u.stored z.stored → Agree related (f u) (g z)) :
    Agree related (Act.world >>= f) (Act.world >>= g) :=
  fun w v start => rest w v start w v start

end Agree

end Act

open Act (Agree)

section Running

variable {related : Stored → Stored → Prop} {run copy : ScriptRunner}
  (scripts : ∀ script, Agree related (run script) (copy script))

include scripts

theorem evaluate_agree (source : Bytes) (filename : Text) :
    Agree related (evaluate run source filename) (evaluate copy source filename) := by
  have body : Agree related (runSource run source filename) (runSource copy source filename) := by
    refine .bind (.note _) fun _ => ?_
    cases scriptOf? source with
    | some script => exact scripts script
    | none => exact .of (.ok ())
  exact ((body.recorded _ _ _).asFile filename).answer fun _ => source.length

namespace Store

variable {s shadow : Store} {key : Key}

theorem runHook_agree (hook : Hook) :
    Agree related (s.runHook run key hook) (shadow.runHook copy key hook) := by
  have body : Agree related (callHook run key hook) (callHook copy key hook) :=
    .recorded (.bind (.note _) fun _ => scripts hook.script) _ _ _
  refine .bind (.log _ _ _ _ _ _ _ _) fun _ => .bind body.attempt fun result => ?_
  cases result with
  | ok => exact .of (.ok ())
  | error raised =>
    cases raised with
    | fault fault => exact .of (.error (.fault fault))
    | mishap mishap =>
      cases failure : mishap.isFailure with
      | true =>
        simp only [failure, if_true]
        exact .bind (.log _ _ _ _ _ _ _ _) fun _ => .of (.error _)
      | false =>
        simp only [failure, Bool.false_eq_true, if_false]
        exact .of (.error _)

section Lookups

variable (hooks : ∀ {st other}, related st other →
    st.tables.hooks.get? key = other.tables.hooks.get? key)
  (reads : Agree related (s.readKey key) (shadow.readKey key))

include hooks reads

theorem execute_agree : Agree related (s.execute run key) (shadow.execute copy key) := by
  refine .world fun u z held => ?_
  have same : u.tables.hooks.get? key = z.tables.hooks.get? key := hooks held
  rw [same]
  cases z.tables.hooks.get? key with
  | some hook => exact runHook_agree scripts hook
  | none => exact reads.bind fun source => (evaluate_agree scripts source _).answer fun _ => ()

theorem loadKey_agree : Agree related (s.loadKey run key) (shadow.loadKey copy key) :=
  .recorded ((execute_agree scripts hooks reads).answer fun _ => Outcome.executed) _ _ _

theorem requireFeature_agree (known : ∀ {st other}, related st other →
      st.tables.features.isLoaded key = other.tables.features.isLoaded key)
    (marks : ∀ {st other}, related st other → related (st.mark key) (other.mark key)) :
    Agree related (s.requireFeature run key key) (shadow.requireFeature copy key key) := by
  refine .world fun u z held => ?_
  have same : u.tables.features.isLoaded key = z.tables.features.isLoaded key := known held
  rw [same]
  cases z.tables.features.isLoaded key with
  | true => exact .bind (.log _ _ _ _ _ _ _ _) fun _ => .of (.ok _)
  | false =>
    refine .bind (execute_agree scripts hooks reads) fun _ => .bind ?_ fun _ => .of (.ok _)
    intro w v start
    obtain ⟨log, marked⟩ := markLoaded_apply key w
    obtain ⟨log', marked'⟩ := markLoaded_apply key v
    rw [marked, marked']
    exact ⟨rfl, marks start⟩

end Lookups

end Store

end Running

end Loadable
