/-
# Binary floating point

Numbers of the form `m * 2 ^ q` with a mantissa of at most 53 bits, and the one nearest to a decimal
number.  Everything is exact arithmetic on natural numbers.
-/

namespace EntityQuery.Decimal

/-- A 64-bit floating point number. -/
inductive Binary64 where
  | nan
  | infinite (negative : Bool)
  /-- The number `mantissa * 2 ^ exponent`, or its negative. -/
  | finite (negative : Bool) (mantissa : Nat) (exponent : Int)
deriving DecidableEq, Repr, Inhabited

/-- The first number that is no mantissa, which is 2 to the power of 53. -/
def mantissaBound : Nat := 0x20000000000000

/-- The least exponent. -/
def minExponent : Int := -1074

/-- The greatest exponent. -/
def maxExponent : Int := 971

/-- The quotient rounded to the nearest natural number, a tie to the even one. -/
def roundDiv (a b : Nat) : Nat :=
  let d := a / b
  let r := a % b
  if 2 * r < b then d else if b < 2 * r then d + 1 else if d % 2 = 0 then d else d + 1

/-- Numerator and denominator of `a / b` divided by `base ^ e`. -/
def scaleDown (base : Nat) (e : Int) (a b : Nat) : Nat × Nat :=
  (a * Nat.pow base (-e).toNat, b * Nat.pow base e.toNat)

/-- The mantissa and exponent nearest to `a / b`. -/
def nearestParts (a b : Nat) : Nat × Int :=
  let estimate := max ((a.log2 : Int) - b.log2 - 53) minExponent
  let (n, d) := scaleDown 2 estimate a b
  let q := if n < mantissaBound * d then estimate else estimate + 1
  let (n, d) := scaleDown 2 q a b
  let m := roundDiv n d
  if m = mantissaBound then (mantissaBound / 2, q + 1) else (m, q)

/-- The floating point number nearest to `digits * 10 ^ e`, or its negative.  Beyond the range of
finite numbers it is infinite. -/
def Binary64.nearest (negative : Bool) (digits : Nat) (e : Int) : Binary64 :=
  let places := (Nat.toDigits 10 digits).length + e
  if digits = 0 ∨ places < -330 then finite negative 0 minExponent
  else if 310 < places then infinite negative
  else
    let (a, b) := scaleDown 10 (-e) digits 1
    let (m, q) := nearestParts a b
    if maxExponent < q then infinite negative else finite negative m q

end EntityQuery.Decimal
