import Loadable.Host.Replace
import Loadable.Log
import Loadable.Session.History
import Loadable.Store.Tables
/-!
All that a run can change, and runs as functions on it. What a run has changed stays changed when
it is cut short.
-/
namespace Loadable

structure World where
  tables : Tables := {}
  host : Host := {}
  /-- Latest first, as the events are. -/
  log : List LogRecord := []
  events : List Event := []
  /-- The files being evaluated, innermost first. -/
  files : List Text := []
  /-- The scripts started so far, once for each start. -/
  started : List Text := []
  /-- The calls that have ended since the innermost call that still runs was made. -/
  history : History := .nothing

def World.fresh (w : World) : World :=
  { w with tables := {}, history := .nothing }

def World.forCall (w : World) : World :=
  { w with history := .nothing }

/-- A run from a world: it answers or is cut short, and leaves a world. -/
def Act (α : Type) : Type :=
  World → Except Raised α × World

namespace Act

variable {α β : Type}

instance : Monad Act where
  pure a := fun w => (.ok a, w)
  bind x f := fun w =>
    match x w with
    | (.ok a, w) => f a w
    | (.error r, w) => (.error r, w)

@[simp] theorem pure_apply (a : α) (w : World) : (pure a : Act α) w = (.ok a, w) := rfl

theorem bind_apply (x : Act α) (f : α → Act β) (w : World) :
    (x >>= f) w = match x w with
      | (.ok a, w) => f a w
      | (.error r, w) => (.error r, w) := rfl

theorem bind_ok {x : Act α} {f : α → Act β} {b : β} {w after : World}
    (done : (x >>= f) w = (.ok b, after)) :
    ∃ a middle, x w = (.ok a, middle) ∧ f a middle = (.ok b, after) := by
  rw [bind_apply] at done
  cases run : x w with
  | mk result middle =>
    rw [run] at done
    cases result with
    | error r => cases done
    | ok a => exact ⟨a, middle, rfl, done⟩

def world : Act World :=
  fun w => (.ok w, w)

def change (f : World → World) : Act Unit :=
  fun w => (.ok (), f w)

def raise (r : Raised) : Act α :=
  fun w => (.error r, w)

def of : Except Raised α → Act α
  | .ok a => pure a
  | .error r => raise r

def ofMishap : Except Mishap α → Act α
  | .ok a => pure a
  | .error m => raise (.mishap m)

def ofFault : Except Fault α → Act α
  | .ok a => pure a
  | .error f => raise (.fault f)

def attempt (x : Act α) : Act (Except Raised α) :=
  fun w =>
    match x w with
    | (result, w) => (.ok result, w)

/-- Makes a call. When it has ended, by returning or not, it stands in the history, with the calls
made while it ran inside it. -/
def recorded (made : Call) (answer : α → Answer) (x : Act α) : Act α :=
  fun w =>
    match x w.forCall with
    | (result, after) =>
      (result, { after with history := w.history.call made after.history (result.map answer) })

theorem recorded_apply (made : Call) (answer : α → Answer) (x : Act α) (w : World) :
    recorded made answer x w =
      let inner := x w.forCall
      (inner.1, { inner.2 with
        history := w.history.call made inner.2.history (inner.1.map answer) }) := rfl

def asFile (filename : Text) (x : Act α) : Act α :=
  fun w =>
    match x { w with files := filename :: w.files } with
    | (result, after) => (result, { after with files := after.files.tail })

theorem asFile_apply (filename : Text) (x : Act α) (w : World) :
    asFile filename x w =
      let inner := x { w with files := filename :: w.files }
      (inner.1, { inner.2 with files := inner.2.files.tail }) := rfl

def note (e : Event) : Act Unit :=
  change fun w => { w with events := e :: w.events }

def log (level : LogLevel) (source : LogSource) (store : Option Text) (message : Text) : Act Unit :=
  change fun w => { w with log := ⟨level, source.name, store, message⟩ :: w.log }

/-- Changes the tables as far as the operation goes, whether it succeeds or not. -/
def onTables (f : Tables → Except Raised α × Tables) : Act α :=
  fun w =>
    match f w.tables with
    | (result, tables) => (result, { w with tables := tables })

def onHost (f : Host → Except Raised α × Host) : Act α :=
  fun w =>
    match f w.host with
    | (result, host) => (result, { w with host := host })

end Act

end Loadable
