import Loadable.Interpreter
/-!
Lookups: what stores and interpreters find out about paths and keys. They change nothing but the
log, and apart from the questions about features their answers depend only on what is stored.
-/
namespace Loadable

/-- The worlds hold the same sources, hooks and directories on the same host. They may differ in
what has been required and in all that a run notes down. -/
structure World.Alike (w v : World) : Prop where
  hooks : w.tables.hooks = v.tables.hooks
  sources : w.tables.sources = v.tables.sources
  directories : w.tables.directories = v.tables.directories
  host : w.host = v.host

namespace World.Alike

theorem isDirectory_eq {w v : World} (alike : w.Alike v) :
    w.tables.isDirectory = v.tables.isDirectory := by
  funext key
  simp only [Tables.isDirectory, alike.directories]

theorem read_eq {w v : World} (alike : w.Alike v) : w.tables.read = v.tables.read := by
  funext key
  simp only [Tables.read, alike.sources, alike.isDirectory_eq]

theorem has_eq {w v : World} (alike : w.Alike v) : w.tables.has = v.tables.has := by
  funext key
  simp only [Tables.has, Tables.isFile, alike.sources, alike.hooks, alike.isDirectory_eq]

end World.Alike

namespace Act

variable {α β : Type}

def Quiet (x : Act α) : Prop :=
  ∀ w, (x w).2 = { w with log := (x w).2.log }

namespace Quiet

theorem pure (a : α) : Quiet (Pure.pure a) := fun _ => rfl

theorem raise (r : Raised) : Quiet (Act.raise r : Act α) := fun _ => rfl

theorem world : Quiet Act.world := fun _ => rfl

theorem log (level : LogLevel) (source : LogSource) (store : Option Text) (message : Text) :
    Quiet (Act.log level source store message) := fun _ => rfl

theorem of (result : Except Raised α) : Quiet (Act.of result) := by
  cases result with
  | ok a => exact pure a
  | error r => exact raise r

theorem ofMishap (result : Except Mishap α) : Quiet (Act.ofMishap result) := by
  cases result with
  | ok a => exact pure a
  | error mishap => exact raise _

theorem bind {x : Act α} {f : α → Act β} (first : Quiet x) (rest : ∀ a, Quiet (f a)) :
    Quiet (x >>= f) := by
  intro w
  have left := first w
  rw [bind_apply]
  cases run : x w with
  | mk result after =>
    rw [run] at left
    cases result with
    | error r => exact left
    | ok a =>
      have unchanged : after = { w with log := after.log } := left
      calc (f a after).2
        _ = { after with log := (f a after).2.log } := rest a after
        _ = { w with log := (f a after).2.log } := by rw [unchanged]

end Quiet

namespace Quiet

variable {x : Act α} {result : Except Raised α} {w after : World}

theorem eq_log (quiet : Quiet x) (run : x w = (result, after)) :
    after = { w with log := after.log } := by
  have left := quiet w
  rw [run] at left
  exact left

theorem tables_eq (quiet : Quiet x) (run : x w = (result, after)) : after.tables = w.tables := by
  rw [quiet.eq_log run]

theorem answer_bind {f : α → Act β} {v : World} (quiet : Quiet x) (first : (x w).1 = (x v).1)
    (rest : ∀ a log log', (f a { w with log := log }).1 = (f a { v with log := log' }).1) :
    ((x >>= f) w).1 = ((x >>= f) v).1 := by
  rw [bind_apply, bind_apply]
  cases run : x w with
  | mk result after =>
    cases other : x v with
    | mk result' after' =>
      have unchanged := quiet.eq_log run
      have unchanged' := quiet.eq_log other
      rw [run, other] at first
      cases first
      cases result with
      | error r => rfl
      | ok a =>
        rw [unchanged, unchanged']
        exact rest a _ _

end Quiet

/-- The act only looks at what is stored: it changes nothing but the log, and its answer does not
depend on the log, nor on what has been required. -/
structure Looks (x : Act α) : Prop where
  quiet : Quiet x
  answer : ∀ {w v : World}, w.Alike v → (x w).1 = (x v).1

namespace Looks

theorem pure (a : α) : Looks (Pure.pure a) := ⟨.pure a, fun _ => rfl⟩

theorem raise (r : Raised) : Looks (Act.raise r : Act α) := ⟨.raise r, fun _ => rfl⟩

theorem log (level : LogLevel) (source : LogSource) (store : Option Text) (message : Text) :
    Looks (Act.log level source store message) := ⟨.log level source store message, fun _ => rfl⟩

theorem of (result : Except Raised α) : Looks (Act.of result) := by
  cases result with
  | ok a => exact pure a
  | error r => exact raise r

theorem ofMishap (result : Except Mishap α) : Looks (Act.ofMishap result) := by
  cases result with
  | ok a => exact pure a
  | error mishap => exact raise _

theorem ofFault (result : Except Fault α) : Looks (Act.ofFault result) := by
  cases result with
  | ok a => exact pure a
  | error fault => exact raise _

theorem bind {x : Act α} {f : α → Act β} (first : Looks x) (rest : ∀ a, Looks (f a)) :
    Looks (x >>= f) := by
  refine ⟨first.quiet.bind fun a => (rest a).quiet, ?_⟩
  intro w v alike
  apply first.quiet.answer_bind (first.answer alike)
  intro a log log'
  exact (rest a).answer ⟨alike.hooks, alike.sources, alike.directories, alike.host⟩

theorem world_bind {f : World → Act β} (looks : ∀ w, Looks (f w))
    (same : ∀ {w v : World}, w.Alike v → f w = f v) : Looks (Act.world >>= f) := by
  refine ⟨Quiet.world.bind fun w => (looks w).quiet, ?_⟩
  intro w v alike
  change (f w w).1 = (f v v).1
  rw [same alike]
  exact (looks v).answer alike

end Looks

end Act

namespace InMemory

theorem contains_looks (key : Key) : Act.Looks (contains key) :=
  .world_bind (fun _ => .pure _) fun alike => by rw [alike.has_eq]

theorem isDirectory_looks (key : Key) : Act.Looks (isDirectory key) :=
  .world_bind (fun _ => .pure _) fun alike => by rw [alike.isDirectory_eq]

theorem read_looks (key : Key) : Act.Looks (read key) :=
  .world_bind (fun _ => .ofFault _) fun alike => by rw [alike.read_eq]

end InMemory

namespace OnHost

theorem contains_looks (key : Key) : Act.Looks (contains key) :=
  .world_bind (fun _ => .pure _) fun alike => by rw [alike.hooks, alike.host]

theorem isDirectory_looks (key : Key) : Act.Looks (isDirectory key) :=
  .world_bind (fun _ => .pure _) fun alike => by rw [alike.host]

theorem read_looks (key : Key) : Act.Looks (read key) :=
  .world_bind (fun _ => .of _) fun alike => by rw [alike.host]

theorem featureKey_looks (f : Flavor) (key : Key) : Act.Looks (featureKey f key) :=
  .world_bind (fun _ => .ofMishap _) fun alike => by rw [alike.host]

end OnHost

namespace Store

open Act (Quiet Looks)

theorem route_looks (s : Store) (key : Key) : Looks (s.route key) :=
  .bind (.log _ _ _ _) fun _ => .pure _

theorem findIn_looks (s : Store) (path : GivenPath) (roots : List Text) :
    Looks (s.findIn path roots) := by
  induction roots with
  | nil => exact .pure none
  | cons root roots ih =>
    rw [findIn]
    refine .bind (.of _) fun key => .bind (OnHost.contains_looks key) fun found => ?_
    split
    · exact .bind (.log _ _ _ _) fun _ => .pure _
    · exact ih

theorem findOrRaise_looks (s : Store) (roots : List Text) (path : GivenPath) :
    Looks (s.findOrRaise roots path) := by
  refine .bind (s.findIn_looks path roots) fun found => ?_
  split
  · exact .pure _
  · exact .bind (.ofMishap _) fun _ => .raise _

theorem resolve_looks (s : Store) (path : GivenPath) : Looks (s.resolve path) := by
  unfold resolve
  split
  · exact .of _
  · exact .of _
  · exact .bind (.of _) fun _ => .pure _
  · refine .bind (s.findIn_looks path _) fun found => ?_
    split
    · exact .pure _
    · exact .of _

theorem containsKey_looks (s : Store) (key : Key) : Looks (s.containsKey key) := by
  unfold containsKey
  split
  · exact InMemory.contains_looks key
  · exact OnHost.contains_looks key
  · refine .bind (s.route_looks key) fun side => ?_
    cases side with
    | memory => exact InMemory.contains_looks key
    | native => exact OnHost.contains_looks key
  · exact .bind (OnHost.contains_looks key) fun _ => .pure _

theorem keyIsDirectory_looks (s : Store) (key : Key) : Looks (s.keyIsDirectory key) := by
  unfold keyIsDirectory
  split
  · exact InMemory.isDirectory_looks key
  · exact OnHost.isDirectory_looks key
  · refine .bind (s.route_looks key) fun side => ?_
    cases side with
    | memory => exact InMemory.isDirectory_looks key
    | native => exact OnHost.isDirectory_looks key
  · exact .bind (OnHost.isDirectory_looks key) fun _ => .pure _

theorem readKey_looks (s : Store) (key : Key) : Looks (s.readKey key) := by
  unfold readKey
  split
  · exact InMemory.read_looks key
  · exact OnHost.read_looks key
  · refine .bind (s.route_looks key) fun side => ?_
    cases side with
    | memory => exact InMemory.read_looks key
    | native => exact OnHost.read_looks key
  · exact .bind (s.findOrRaise_looks _ _) fun _ => OnHost.read_looks _

theorem featureKey_looks (s : Store) (key : Key) : Looks (s.featureKey key) := by
  unfold featureKey
  split
  · exact .pure key
  · exact OnHost.featureKey_looks _ key
  · refine .bind (s.route_looks key) fun side => ?_
    cases side with
    | memory => exact .pure key
    | native => exact OnHost.featureKey_looks _ key
  · split
    · exact .pure key
    · exact OnHost.featureKey_looks _ key

theorem contains_looks (s : Store) (path : GivenPath) : Looks (s.contains path) := by
  unfold contains
  split
  · exact .bind (s.findIn_looks path _) fun _ => .pure _
  · exact .bind (s.resolve_looks path) fun key => s.containsKey_looks key

theorem isDirectory_looks (s : Store) (path : GivenPath) : Looks (s.isDirectory path) := by
  unfold isDirectory
  split
  · refine .bind (s.findIn_looks path _) fun found => ?_
    split
    · exact OnHost.isDirectory_looks _
    · exact .pure false
  · exact .bind (s.resolve_looks path) fun key => s.keyIsDirectory_looks key

theorem read_looks (s : Store) (path : GivenPath) : Looks (s.read path) := by
  unfold read
  split
  · exact .bind (s.findOrRaise_looks _ path) fun _ => OnHost.read_looks _
  · exact .bind (s.resolve_looks path) fun key => s.readKey_looks key

theorem extension_looks (s : Store) (path : GivenPath) : Looks (s.extension? path) :=
  .bind (s.resolve_looks path) fun _ =>
    .world_bind (fun _ => .pure _) fun alike => by rw [alike.hooks]

theorem entry_looks (s : Store) (path : GivenPath) : Looks (s.entry? path) :=
  .bind (s.resolve_looks path) fun _ =>
    .world_bind (fun _ => .pure _) fun alike => by
      simp only [Tables.entry?, alike.sources, alike.hooks, alike.isDirectory_eq]

theorem servedBy_looks (s : Store) (path : GivenPath) : Looks (s.servedBy path) := by
  unfold servedBy
  split
  · exact .pure _
  · exact .pure _
  · refine .bind (s.resolve_looks path) fun key => .bind (s.route_looks key) fun side => ?_
    cases side with
    | memory => exact .pure _
    | native => exact .pure _
  · refine .bind (s.findIn_looks path _) fun found => ?_
    split
    · exact .pure _
    · exact .pure _

theorem registeredIn_quiet (s : Store) (path : GivenPath) (roots : List Text) :
    Quiet (s.registeredIn path roots) := by
  induction roots with
  | nil => exact .pure none
  | cons root roots ih =>
    rw [registeredIn]
    refine .bind (.of _) fun key => .bind (OnHost.featureKey_looks _ key).quiet fun feature =>
      .bind .world fun w => ?_
    split
    · exact .pure _
    · exact ih

theorem isRequired_quiet (s : Store) (path : GivenPath) : Quiet (s.isRequired path) := by
  unfold isRequired
  split
  · exact .bind (s.registeredIn_quiet path _) fun _ => .pure _
  · exact .bind (s.resolve_looks path).quiet fun key =>
      .bind (s.featureKey_looks key).quiet fun _ => .bind .world fun _ => .pure _

end Store

namespace Interpreter

open Act (Quiet Looks)

theorem currentFile_quiet : Quiet currentFile? :=
  .bind .world fun _ => .pure _

theorem anyRequired_quiet (s : Store) (candidates : List Text) :
    Quiet (anyRequired s candidates) := by
  induction candidates with
  | nil => exact .pure false
  | cons candidate candidates ih =>
    refine .bind (s.isRequired_quiet _) fun required => ?_
    split
    · exact .pure true
    · exact ih

theorem firstFile_looks (s : Store) (candidates : List Text) : Looks (firstFile s candidates) := by
  induction candidates with
  | nil => exact .pure none
  | cons candidate candidates ih =>
    refine .bind (s.contains_looks _) fun found => ?_
    split
    · refine .bind (s.isDirectory_looks _) fun directory => ?_
      split
      · exact ih
      · exact .pure _
    · exact ih

theorem underLoadRoot_looks (s : Store) (path : GivenPath) : Looks (underLoadRoot s path) :=
  .bind (.ofMishap _) fun _ => .pure _

end Interpreter

end Loadable
