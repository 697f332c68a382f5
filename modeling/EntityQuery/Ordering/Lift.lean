/-
# Lifting sorts

Sorts move up the plan as far as they can go without crossing a skip or take, projections move
below skips and takes, and neighbours of one kind merge.  A skip or take keeps the sort right
below it: the pair is one windowed stage.  Where the order of such a stage matters further up, its
keys are restated in a sort above it.

A sweep applies the rules once from the bottom to the top; `Plan.lift` sweeps until no rule
applies or the allowed number of sweeps is used up.  In the canonical form every skip stands on a
sort and every take on a sort or on such a skip.
-/
import EntityQuery.Ordering.Carry
import EntityQuery.Ordering.Check

namespace EntityQuery

/-! ## Merging neighbours -/

/-- The sum of two counts, at most the greatest count. -/
def saturatingAdd (m n : UInt64) : UInt64 :=
  if m.toNat + n.toNat < UInt64.size then m + n else UInt64.ofNat (UInt64.size - 1)

/-- The difference of two counts, at least zero. -/
def saturatingSub (m n : UInt64) : UInt64 :=
  if n ≤ m then m - n else 0

/-- The conjunction of two filters, without the outer conjuncts that the inner filter has. -/
def fuse (inner outer : Expr) : Expr :=
  let known := inner.conjuncts
  let added := outer.conjuncts
  if added.any (known.contains ·) then
    match Expr.joinedBy .and (added.filter (!known.contains ·)) with
    | some rest => .and inner rest
    | none => inner
  else .and inner outer

/-- The outer columns read straight from the input of the inner projection. -/
def compose (outer inner : List OutputColumn) : List OutputColumn :=
  outer.map (·.substitute (OutputColumn.definition inner))

namespace Plan

/-! ## The rules

Each gives the plan that replaces an operator over an input, if one of its rules applies. -/

/-- Filters merge, and a sort moves above a filter. -/
def liftOverFilter? (predicate : Expr) : Plan → Option Plan
  | filter inner p => some (filter (fuse inner predicate) p)
  | sort keys p => some (sort keys (filter predicate p))
  | _ => none

/-- A sort moves above a type filter. -/
def liftOverType? (subtype : String) : Plan → Option Plan
  | sort keys p => some (sort keys (ofType subtype p))
  | _ => none

/-- Projections merge, a sort moves above a projection, and a projection below a skip or take. -/
def liftOverProject? (columns : List OutputColumn) : Plan → Option Plan
  | project inner p => some (project (compose columns inner) p)
  | sort keys p =>
    let (carried, lifted) := carryKeys columns keys
    some (sort lifted (project carried p))
  | skip n p => some (skip n (project columns p))
  | take n p => some (take n (project columns p))
  | _ => none

/-- A sort shadows the sort below it. -/
def liftOverSort? (keys : List SortKey) : Plan → Option Plan
  | sort _ p => some (sort keys p)
  | _ => none

/-- Skips merge, and a skip moves below a take. -/
def liftOverSkip? (count : UInt64) : Plan → Option Plan
  | skip inner p => some (skip (saturatingAdd inner count) p)
  | take limit p => some (take (saturatingSub limit count) (skip count p))
  | _ => none

/-- Takes merge. -/
def liftOverTake? (count : UInt64) : Plan → Option Plan
  | take inner p => some (take (min inner count) p)
  | _ => none

/-! ## Sweeps -/

/-- What the consumer of a plan expects from the order of its rows. -/
inductive Consumer where
  /-- The order is the result's, or is seen by a skip or take through row-wise operators. -/
  | needsOrder
  /-- A sort further up decides the order. -/
  | ordered
  /-- The consumer is a skip or take. -/
  | window
deriving DecidableEq, Repr

/-- The consumer as seen from below a row-wise operator. -/
def Consumer.through : Consumer → Consumer
  | window => needsOrder
  | consumer => consumer

/-- The replacement if a rule applied, else the plan as it was; with whether any rule applied. -/
def settle (replacement : Option Plan) (unchanged : Plan) (applied : Bool) : Plan × Bool :=
  match replacement with
  | some plan => (plan, true)
  | none => (unchanged, applied)

/-- The keys of a windowed stage restated above it, where the consumer needs its order. -/
def restate (consumer : Consumer) : Plan × Bool → Plan × Bool
  | (plan, applied) =>
    match consumer, plan.truncationKeys with
    | .needsOrder, some keys => (sort keys plan, true)
    | _, _ => (plan, applied)

/-- One sweep over the plan from the bottom to the top, and whether a rule applied in it. -/
def sweep (consumer : Consumer) : Plan → Plan × Bool
  | source relation => (source relation, false)
  | filter predicate p =>
    let (p, applied) := p.sweep consumer.through
    settle (liftOverFilter? predicate p) (filter predicate p) applied
  | ofType subtype p =>
    let (p, applied) := p.sweep consumer.through
    settle (liftOverType? subtype p) (ofType subtype p) applied
  | project columns p =>
    let (p, applied) := p.sweep consumer
    settle (liftOverProject? columns p) (project columns p) applied
  | sort keys p =>
    let (p, applied) := p.sweep .ordered
    settle (liftOverSort? keys p) (sort keys p) applied
  | skip count p =>
    let (p, applied) := p.sweep .window
    restate consumer (settle (liftOverSkip? count p) (skip count p) applied)
  | take count p =>
    let (p, applied) := p.sweep .window
    restate consumer (settle (liftOverTake? count p) (take count p) applied)

/-- Sweeps until no rule applies, at most `limit` times. -/
def sweepUpTo : (limit : Nat) → Plan → Plan
  | 0, plan => plan
  | limit + 1, plan =>
    match plan.sweep .needsOrder with
    | (swept, true) => sweepUpTo limit swept
    | (swept, false) => swept

/-- The canonical form of an ordered plan, reached in at most `limit` sweeps. -/
def lift (limit : Nat) (plan : Plan) : Except Fault Plan := do
  plan.checkOrdered
  let lifted := sweepUpTo limit plan
  lifted.checkCanonical
  return lifted

/-- The number of sweeps allowed where nothing else is said. -/
def defaultSweeps : Nat := 32

end Plan

end EntityQuery
