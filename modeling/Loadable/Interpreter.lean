import Loadable.Store.Require
/-!
The load builtins of an interpreter on top of a store: requiring by name, with the source extension
left out or not, and requiring relative to the file being evaluated.
-/
namespace Loadable

def sourceExtension : Text :=
  Text.ofString ".rb"

def featureCandidates (name : Text) : List Text :=
  if sourceExtension.isSuffixOf name then [name] else [name ++ sourceExtension, name]

theorem featureCandidates_extended {name : Text} (extended : sourceExtension <:+ name) :
    featureCandidates name = [name] :=
  if_pos (List.isSuffixOf_iff_suffix.2 extended)

theorem featureCandidates_bare {name : Text} (bare : ¬sourceExtension <:+ name) :
    featureCandidates name = [name ++ sourceExtension, name] :=
  if_neg fun extended => bare (List.isSuffixOf_iff_suffix.1 extended)

namespace Interpreter

def currentFile? : Act (Option Text) := do
  return (← Act.world).files.head?

def anyRequired (s : Store) : List Text → Act Bool
  | [] => return false
  | candidate :: candidates => do
    if ← s.isRequired (.text candidate) then return true else anyRequired s candidates

def firstFile (s : Store) : List Text → Act (Option Text)
  | [] => return none
  | candidate :: candidates => do
    if ← s.contains (.text candidate) then
      if ← s.isDirectory (.text candidate) then firstFile s candidates
      else return some candidate
    else firstFile s candidates

def logRequire (name : Text) (outcome : Outcome) : Act Unit :=
  Act.log .debug .interpreter none
    (("require " : Text) ++ name.quoted ++ (": " : Text) ++ Text.ofString outcome.name)

def requireName (run : ScriptRunner) (s : Store) (name : Text) : Act Bool := do
  let candidates := featureCandidates name
  if ← anyRequired s candidates then
    logRequire name .alreadyLoaded
    return false
  else
    match ← firstFile s candidates with
    | some candidate =>
      let outcome ← s.require run (.text candidate)
      logRequire name outcome
      return outcome = .loaded
    | none => Act.raise (.fault (.noCandidate name candidates))

def require (run : ScriptRunner) (s : Store) (name : GivenPath) : Act Bool := do
  requireName run s (← Act.ofMishap name.asText)

def load (run : ScriptRunner) (s : Store) (name : GivenPath) : Act Bool := do
  let _ ← s.load run name
  return true

/-- A name relative to the directory of the current file; without one, to the store's. -/
def relativeTarget (s : Store) (current : Option Text) (name : Text) : Text :=
  let base := match current with
    | some (c :: file) => dirName (c :: file)
    | _ => s.cwd
  s.flavor.absolutize name base

def requireRelative (run : ScriptRunner) (s : Store) (name : GivenPath) : Act Bool := do
  let name ← Act.ofMishap name.asText
  let current ← currentFile?
  requireName run s (relativeTarget s current name)

def underLoadRoot (s : Store) (path : GivenPath) : Act GivenPath := do
  let text ← Act.ofMishap path.asText
  return .text (s.flavor.absolutize text s.flavor.loadRoot)

def preloadSource (s : Store) (path : GivenPath) (data : GivenData) : Act Unit := do
  s.write (← underLoadRoot s path) data

def preloadHook (s : Store) (path : GivenPath) (hook : GivenHook) : Act Unit := do
  s.registerExtension (← underLoadRoot s path) hook

end Interpreter

end Loadable
