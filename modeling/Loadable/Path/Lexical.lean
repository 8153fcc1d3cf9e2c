import Loadable.Path.Flavor
/-!
Host paths taken apart and put together by their letters alone.
-/
namespace Loadable

variable {α : Type} [DecidableEq α] [PathLetter α]

def trimSlashes (path : List α) : List α :=
  match path.reverse.dropWhile (· = slash) with
  | [] => path
  | a :: kept => (a :: kept).reverse

def splitLast (path : List α) : List α × List α :=
  let last := (path.reverse.takeWhile (· ≠ slash)).reverse
  (trimSlashes (path.take (path.length - last.length)), last)

def dirName (path : List α) : List α :=
  (splitLast path).1

def joinPath (path more : List α) : List α :=
  if more.head? = some slash then more
  else if path = [] ∨ path.getLast? = some slash then path ++ more
  else path ++ slash :: more

def joinNames : List (List α) → List α
  | [] => []
  | [name] => name
  | name :: names => name ++ slash :: joinNames names

/-- Exactly two slashes at the start are kept, three or more count as one. -/
def leadingSlashes : List α → Nat
  | a :: b :: c :: _ => if a = slash then if b = slash ∧ c ≠ slash then 2 else 1 else 0
  | [a, b] => if a = slash then if b = slash then 2 else 1 else 0
  | [a] => if a = slash then 1 else 0
  | [] => 0

def gatherName (rooted : Bool) (gathered : List (List α)) (name : List α) : List (List α) :=
  if name = [] ∨ name = [dot] then gathered
  else if name ≠ [dot, dot] then name :: gathered
  else match gathered with
    | [] => if rooted then [] else [name]
    | nearest :: others => if nearest = [dot, dot] then name :: gathered else others

def normalPath (path : List α) : List α :=
  let slashes := leadingSlashes path
  let names := (splitAt (· = slash) path).foldl (gatherName (slashes ≠ 0)) []
  match List.replicate slashes slash ++ joinNames names.reverse with
  | [] => [dot]
  | normal => normal

def absolutePath (cwd path : List α) : List α :=
  normalPath (if path.head? = some slash then path else joinPath cwd path)

end Loadable
