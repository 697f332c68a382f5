/-
# Shortest decimal text

The decimal number with the fewest digits that reads back as a given floating point number; of
several such numbers the nearest, and of two that are equally near the greater.  It is written
without an exponent.
-/
import EntityQuery.Decimal.Binary64
import EntityQuery.Text.Quoted

namespace EntityQuery.Decimal

/-- A positive floating point number `m * 2 ^ q` with the interval of numbers that round to it, all
in units of `2 ^ (q - 2)`. -/
structure Rounding where
  low : Nat
  value : Nat
  high : Nat
  /-- Whether the ends of the interval round to the number too. -/
  closed : Bool
  unit : Int

/-- The interval of numbers that round to `m * 2 ^ q`.  Below a power of two the neighbour is only
half as far away. -/
def Rounding.of (m : Nat) (q : Int) : Rounding :=
  let below := if m = mantissaBound / 2 ∧ minExponent < q then 1 else 2
  { low := 4 * m - below, value := 4 * m, high := 4 * m + 2, closed := m % 2 = 0, unit := q - 2 }

namespace Rounding

/-- The numbers `c * 10 ^ k` and `n` units, brought to a common unit. -/
def aligned (r : Rounding) (c : Nat) (k : Int) (n : Nat) : Nat × Nat :=
  (c * Nat.pow 10 k.toNat * Nat.pow 2 (-r.unit).toNat,
    n * Nat.pow 2 r.unit.toNat * Nat.pow 10 (-k).toNat)

/-- Whether `c * 10 ^ k` rounds to the number. -/
def holds (r : Rounding) (c : Nat) (k : Int) : Bool :=
  let (x, low) := r.aligned c k r.low
  let (_, high) := r.aligned c k r.high
  if r.closed then low ≤ x && x ≤ high else low < x && x < high

/-- The distance of `c * 10 ^ k` from the number. -/
def distance (r : Rounding) (c : Nat) (k : Int) : Nat :=
  let (x, value) := r.aligned c k r.value
  (x - value) + (value - x)

/-- The multiple of `10 ^ k` below the number, or the one above it, that rounds to the number; the
nearer one if both do, and the one above if both are equally near. -/
def onGrid? (r : Rounding) (k : Int) : Option Nat :=
  let (step, value) := r.aligned 1 k r.value
  let c := value / step
  match r.holds c k, r.holds (c + 1) k with
  | true, true => some (if r.distance (c + 1) k ≤ r.distance c k then c + 1 else c)
  | true, false => some c
  | false, true => some (c + 1)
  | false, false => none

/-- The least power of ten that brings `value` up to `one`. -/
def powerToReach (one value : Nat) : Nat :=
  ((List.range 400).find? fun j => one ≤ value * Nat.pow 10 j).getD 0

/-- The power of ten of the leading digit. -/
def leadingPower (r : Rounding) : Int :=
  let (one, value) := r.aligned 1 0 r.value
  if one ≤ value then ((Nat.toDigits 10 (value / one)).length : Int) - 1
  else -(powerToReach one value : Int)

/-- The fewest digits that read back as the number, and the power of ten they are multiplied by.
The search starts one place above the leading digit, because the number may round up to the next
power of ten. -/
def shortest (r : Rounding) : Nat × Int :=
  let lead := r.leadingPower
  let grids := (List.range 19).map fun (n : Nat) => lead + 1 - n
  match grids.findSome? fun k => (r.onGrid? k).map (·, k) with
  | some found => found
  | none => (0, 0)

end Rounding

/-- The number `digits * 10 ^ k` without an exponent; a whole number has a zero behind its point. -/
def positional (digits : Nat) (k : Int) : String :=
  let ds := Nat.toDigits 10 digits
  if 0 ≤ k then String.ofList (ds ++ List.replicate k.toNat '0') ++ ".0"
  else
    let places := (-k).toNat
    let padded := List.replicate (places + 1 - ds.length) '0' ++ ds
    let cut := padded.length - places
    String.ofList (padded.take cut) ++ "." ++ String.ofList (padded.drop cut)

/-- The decimal text of a floating point number. -/
def Binary64.text : Binary64 → String
  | nan => "nan"
  | infinite negative => if negative then "-inf" else "inf"
  | finite negative m q =>
    let (digits, k) := if m = 0 then (0, 0) else (Rounding.of m q).shortest
    (if negative then "-" else "") ++ positional digits k

end EntityQuery.Decimal
