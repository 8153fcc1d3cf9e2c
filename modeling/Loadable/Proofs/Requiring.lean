import Loadable.Fault.Report
import Loadable.Proofs.Candidates
import Loadable.Proofs.FirstMatch
/-!
What a require by name comes to. The registry is asked about all candidates first; what is required
after that is the first candidate that is a file, and the store, which asks the registry again, finds
it to be as new as it was.
-/
namespace Loadable

namespace Store

open Act (Looks)

variable {s part : Store} {path : GivenPath} {key : Key} {w : World}

end Store

namespace Interpreter

variable {s part : Store} {candidates : List Text} {candidate : Text} {w : World} {given : GivenPath}
  {name : Text}

def SomeRequired (s : Store) (candidates : List Text) (w : World) : Prop :=
  ∃ candidate ∈ candidates, (s.isRequired (.text candidate) w).1 = .ok true

/-- No question is refused that is asked about the candidates: whether they are required until one
is, and if none is, what they are until one is a file. -/
def Answered (s : Store) (candidates : List Text) (w : World) : Prop :=
  ∃ required, (anyRequired s candidates w).1 = .ok required ∧
    (required = false → ∃ file, (firstFile s candidates w).1 = .ok file)

theorem someRequired_iff {required : Bool}
    (asked : (anyRequired s candidates w).1 = .ok required) :
    required = true ↔ SomeRequired s candidates w := by
  rw [anyRequired_eq] at asked
  cases required with
  | true =>
    obtain ⟨before, candidate, after, rfl, _, yes⟩ := firstYes_first asked nofun
    exact ⟨fun _ => ⟨candidate, List.mem_append_right before List.mem_cons_self, yes⟩, fun _ => rfl⟩
  | false =>
    refine ⟨nofun, ?_⟩
    rintro ⟨candidate, member, yes⟩
    rw [firstYes_no_iff.1 asked candidate member] at yes
    cases yes

theorem Answered.searched (answered : Answered s candidates w)
    (unrequired : ¬SomeRequired s candidates w) :
    (anyRequired s candidates w).1 = .ok false ∧ ∃ file, (firstFile s candidates w).1 = .ok file := by
  obtain ⟨required, asked, goes⟩ := answered
  cases required with
  | true => exact absurd ((someRequired_iff asked).1 rfl) unrequired
  | false => exact ⟨asked, goes rfl⟩

section ByName

variable (usable : given.asText = .ok name)

include usable

variable (answered : Answered s (featureCandidates name) w)

include answered

end ByName

/-- Where the name with the extension is a directory, the bare one is required. -/
example :
    let s : Store := ⟨.posix, ("/" : Text), .memory⟩
    let below := (s.write (.text ("x.rb/y" : Text)) (.bytes []) {}).2
    let w := (s.write (.text ("x" : Text)) (.bytes []) below).2
    let required := require (fun _ => pure ()) s (.text ("x" : Text)) w
    required.1 = .ok true ∧ required.2.tables.features.loaded = [Bytes.ofString "/x"] := by
  decide +kernel

end Interpreter

end Loadable
