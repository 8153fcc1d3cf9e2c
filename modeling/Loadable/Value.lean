import Loadable.Number.Shortest
import Loadable.Text.Quoted
/-!
Dynamic values: what a configuration field or an error's context may hold.
-/
namespace Loadable

inductive Value where
  | null
  | bool (b : Bool)
  | integer (n : Int)
  | floating (x : Floating)
  | text (t : Text)
  | list (items : List Value)
  | object (fields : List (Text × Value))
  deriving Inhabited

namespace Value

def typeName : Value → String
  | null => "NoneType"
  | bool _ => "bool"
  | integer _ => "int"
  | floating _ => "float"
  | text _ => "str"
  | list _ => "list"
  | object _ => "dict"

/-- Digits with their point `point` places from the left. A number from `10 ^ -4` to below `10 ^ 16`
is written positionally with at least one decimal, others with a signed exponent of two digits or
more. -/
def decimalText (digits : List Char) (point : Int) : List Char :=
  if -4 < point ∧ point ≤ 16 then
    if point ≤ 0 then '0' :: '.' :: List.replicate (-point).toNat '0' ++ digits
    else
      let whole := digits.take point.toNat
      let padding := List.replicate (point.toNat - whole.length) '0'
      match digits.drop point.toNat with
      | [] => whole ++ padding ++ ['.', '0']
      | decimals => whole ++ '.' :: decimals
  else
    let exponent := point - 1
    let shown := Nat.toDigits 10 exponent.natAbs
    let decimals := match digits.drop 1 with
      | [] => []
      | decimals => '.' :: decimals
    digits.take 1 ++ decimals ++ 'e' :: (if exponent < 0 then '-' else '+') ::
      List.replicate (2 - shown.length) '0' ++ shown

def floatingText : Floating → List Char
  | .nan => ['n', 'a', 'n']
  | .infinite negative => (if negative then ['-'] else []) ++ ['i', 'n', 'f']
  | .finite negative m q =>
    let d := Decimal.shortest m q
    let digits := Nat.toDigits 10 d.digits
    (if negative then ['-'] else []) ++ decimalText digits (digits.length + d.exponent)

def quoted : Value → Text
  | null => "None"
  | bool true => "True"
  | bool false => "False"
  | integer n => Text.ofInt n
  | floating x => (floatingText x).map .scalar
  | text t => t.quoted
  | list items => .scalar '[' :: quotedItems items ++ [.scalar ']']
  | object fields => .scalar '\x7b' :: quotedFields fields ++ [.scalar '\x7d']
where
  quotedItems : List Value → Text
    | [] => []
    | [v] => quoted v
    | v :: vs => quoted v ++ .scalar ',' :: .scalar ' ' :: quotedItems vs
  quotedFields : List (Text × Value) → Text
    | [] => []
    | [(k, v)] => k.quoted ++ .scalar ':' :: .scalar ' ' :: quoted v
    | (k, v) :: rest =>
      k.quoted ++ .scalar ':' :: .scalar ' ' :: quoted v ++
        .scalar ',' :: .scalar ' ' :: quotedFields rest

def shown : Value → Text
  | text t => t
  | v => v.quoted

end Value

end Loadable
