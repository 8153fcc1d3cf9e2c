import Loadable.Number.Floating
/-!
The shortest decimal of a floating-point number: of the decimals that read back to the number, one
with the fewest digits, and of those the nearest.
-/
namespace Loadable

namespace Decimal

/-- The decimal is closer to `m * 2 ^ q` than to the numbers above and below it. An even significand
also wins a tie. The number below a power of two is only half as far away. -/
def readsBack (d : Decimal) (m : Nat) (q : Int) : Bool :=
  let below :=
    if 2 * m = Floating.significandLimit ∧ Floating.leastExponent < q then 4 * m - 1 else 4 * m - 2
  match d.compareBinary below (q - 2), d.compareBinary (4 * m + 2) (q - 2) with
  | .gt, .lt => true
  | .eq, _ | _, .eq => m % 2 = 0
  | _, _ => false

/-- The least `k` with `m * 2 ^ q < 10 ^ k`, found next to an estimate from the binary logarithm. -/
def scale (m : Nat) (q : Int) : Int :=
  let estimate := (m.log2 + q) * 30103 / 100000
  let candidates := (List.range 4).map fun (n : Nat) => estimate - 1 + n
  (candidates.find? fun k => (⟨1, k⟩ : Decimal).compareBinary m q = .gt).getD (estimate + 3)

def neighbours (m : Nat) (q e : Int) : Decimal × Decimal :=
  let floor :=
    m * integralPower 2 q * integralPower 10 (-e) / (integralPower 2 (-q) * integralPower 10 e)
  (⟨floor, e⟩, ⟨floor + 1, e⟩)

def nearest? (m : Nat) (q e : Int) : Option Decimal :=
  let (lower, upper) := neighbours m q e
  match lower.readsBack m q, upper.readsBack m q with
  | false, false => none
  | true, false => some lower
  | false, true => some upper
  | true, true =>
    match (⟨2 * lower.digits + 1, e⟩ : Decimal).compareBinary (2 * m) q with
    | .gt => some lower
    | .lt => some upper
    | .eq => some (if lower.digits % 2 = 0 then lower else upper)

def trim : (limit : Nat) → Decimal → Decimal
  | 0, d => d
  | limit + 1, d =>
    if d.digits ≠ 0 ∧ d.digits % 10 = 0 then trim limit ⟨d.digits / 10, d.exponent + 1⟩ else d

/-- The shortest decimal for `m * 2 ^ q`. Seventeen digits suffice for every number. -/
def shortest (m : Nat) (q : Int) : Decimal :=
  if m = 0 then ⟨0, 0⟩
  else
    let k := scale m q
    match (List.range 17).findSome? fun (n : Nat) => nearest? m q (k - (n + 1)) with
    | some d => trim 17 d
    | none => ⟨m * integralPower 2 q * integralPower 5 (-q), min q 0⟩

end Decimal

end Loadable
