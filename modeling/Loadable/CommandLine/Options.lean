import Loadable.Text.CodePoint
/-!
Options and arguments of a command. Every option has a long name and takes a value, which follows
it behind `=` or as the next word; `--` ends the options.
-/
namespace Loadable

structure Words where
  options : List (Text × Text) := []
  arguments : List Text := []
  deriving DecidableEq

namespace Words

def addOption (name value : Text) (w : Words) : Words :=
  { w with options := (name, value) :: w.options }

def addArgument (argument : Text) (w : Words) : Words :=
  { w with arguments := argument :: w.arguments }

/-- A dash alone is an argument. -/
def isOption : Text → Bool
  | c :: _ :: _ => c = .scalar '-'
  | _ => false

def splitValue (word : Text) : Text × Option Text :=
  let name := word.takeWhile (· ≠ .scalar '=')
  match word.drop name.length with
  | [] => (name, none)
  | _ :: value => (name, some value)

/-- Nothing, if a word is no option that there is or an option lacks its value. Unless options may
stand among arguments, the first argument ends them. -/
def ofList? (names : List Text) (amongArguments : Bool) : List Text → Option Words
  | [] => some {}
  | word :: rest =>
    if word = Text.ofString "--" then some { arguments := rest }
    else if isOption word then
      let (name, value) := splitValue word
      if names.contains name then
        match value, rest with
        | some value, rest => (ofList? names amongArguments rest).map (addOption name value)
        | none, value :: rest => (ofList? names amongArguments rest).map (addOption name value)
        | none, [] => none
      else none
    else if amongArguments then (ofList? names amongArguments rest).map (addArgument word)
    else some { arguments := word :: rest }

def values (w : Words) (name : String) : List Text :=
  (w.options.filter (·.1 = Text.ofString name)).map (·.2)

def value? (w : Words) (name : String) : Option Text :=
  (w.values name).getLast?

end Words

end Loadable
