/-!
Floating-point numbers of 64 bits, as exact multiples of powers of two, and the decimals they are
written in.
-/
namespace Loadable

/-- A 64-bit floating-point number; a finite one is `significand * 2 ^ exponent`. -/
inductive Floating where
  | finite (negative : Bool) (significand : Nat) (exponent : Int)
  | infinite (negative : Bool)
  | nan
  deriving DecidableEq

structure Decimal where
  digits : Nat
  exponent : Int
  deriving DecidableEq

def integralPower (base : Nat) (exponent : Int) : Nat :=
  Nat.pow base exponent.toNat

namespace Decimal

def compareBinary (d : Decimal) (m : Nat) (j : Int) : Ordering :=
  compare (d.digits * integralPower 10 d.exponent * integralPower 2 (-j))
    (m * integralPower 2 j * integralPower 10 (-d.exponent))

end Decimal

namespace Floating

/-- A significand stays below this, and only one with the least exponent lies below half of it. -/
def significandLimit : Nat := 0x20000000000000

def leastExponent : Int := -1074

def greatestExponent : Int := 971

/-- `numerator / denominator`, rounded to an integer; a half goes to the even one. -/
def roundedQuotient (numerator denominator : Nat) : Nat :=
  let floor := numerator / denominator
  match compare (2 * (numerator % denominator)) denominator with
  | .lt => floor
  | .gt => floor + 1
  | .eq => floor + floor % 2

def inUnitsOf (numerator denominator : Nat) (exponent : Int) : Nat :=
  roundedQuotient (numerator * integralPower 2 (-exponent)) (denominator * integralPower 2 exponent)

/-- The exponent at which the quotient's significand has 53 bits, or the least one. The logarithms
tell the quotient's size up to a factor of two. -/
def exponentFor (numerator denominator : Nat) : Int :=
  let estimate : Int := numerator.log2 - denominator.log2 - 52
  let small := 2 * numerator * integralPower 2 (-estimate) <
    significandLimit * denominator * integralPower 2 estimate
  max leastExponent (if small then estimate - 1 else estimate)

def ofQuotient (negative : Bool) (numerator denominator : Nat) : Floating :=
  let exponent := exponentFor numerator denominator
  let significand := inUnitsOf numerator denominator exponent
  let (significand, exponent) :=
    if significand = significandLimit then (significandLimit / 2, exponent + 1)
    else (significand, exponent)
  if greatestExponent < exponent then infinite negative
  else finite negative significand exponent

/-- The number nearest to a decimal. From `10 ^ 310` on all are infinite, and to below `10 ^ -330`
all are zero. -/
def ofDecimal (negative : Bool) (d : Decimal) : Floating :=
  let magnitude : Int := (Nat.toDigits 10 d.digits).length + d.exponent
  if d.digits = 0 ∨ magnitude < -330 then finite negative 0 leastExponent
  else if 310 < magnitude then infinite negative
  else ofQuotient negative (d.digits * integralPower 10 d.exponent) (integralPower 10 (-d.exponent))

end Floating

end Loadable
