/-
# Null semantics of filters

A query may be read in two ways where a comparison meets a null.  The engine's own reading is
three-valued: the comparison is unknown.  In the host reading `null = null` is true and comparing
a null with a value is false.  Adjusting a predicate spells the host reading out with explicit
null tests, so that the engine's logic gives the same answer.

Orderings need the tests only under a negation: elsewhere unknown already filters like false.
Adjusting a predicate again changes nothing, because an expanded comparison is recognised.
-/
import EntityQuery.Plan.Basic

namespace EntityQuery

/-- How comparisons treat nulls. -/
inductive NullMode where
  /-- As the host language does. -/
  | host
  /-- As the database engine does. -/
  | native
deriving DecidableEq, Repr, Inhabited

namespace Expr

/-! ## Expanded comparisons -/

/-- Equality in the host reading. -/
def hostEquality (l r : Expr) : Expr :=
  if l.isLiteral && r.isLiteral then binary .eq l r
  else if r.isNullLiteral then isNull l
  else if l.isNullLiteral then isNull r
  else if r.isLiteral then and (binary .eq r l) (isNotNull l)
  else if l.isLiteral then and (binary .eq l r) (isNotNull r)
  else or (and (and (binary .eq l r) (isNotNull l)) (isNotNull r)) (and (isNull l) (isNull r))

/-- Inequality in the host reading. -/
def hostInequality (l r : Expr) : Expr :=
  if l.isLiteral && r.isLiteral then binary .ne l r
  else if r.isNullLiteral then isNotNull l
  else if l.isNullLiteral then isNotNull r
  else if r.isLiteral then or (binary .ne l r) (isNull l)
  else if l.isLiteral then or (binary .ne r l) (isNull r)
  else
    or (or (and (and (binary .ne l r) (isNotNull l)) (isNotNull r)) (and (isNull l) (isNotNull r)))
      (and (isNotNull l) (isNull r))

/-- The expression guarded against a null operand, if the operand can be null. -/
def guardedBy (e operand : Expr) : Expr :=
  if operand.isLiteral && !operand.isNullLiteral then e else and e (isNotNull operand)

/-- An ordering that is false when an operand is null. -/
def hostOrdering (op : Op) (l r : Expr) : Expr :=
  ((binary op l r).guardedBy l).guardedBy r

/-- The host reading of a comparison; other expressions have none of their own. -/
def hostComparison? : Expr → Option Expr
  | binary .eq l r => some (hostEquality l r)
  | binary .ne l r => some (hostInequality l r)
  | binary op l r => if op.isOrdering then some (hostOrdering op l r) else none
  | _ => none

/-! ## Adjusting predicates -/

/-- The expression at the far left of a tree of connectives. -/
def leftmost : Expr → Expr
  | binary op l r => if op.isConnective then l.leftmost else binary op l r
  | e => e

/-- Whether a connective is the expansion of the comparison at its far left. -/
def isExpanded (e : Expr) : Bool :=
  match e with
  | binary op _ _ => op.isConnective && e.leftmost.hostComparison? = some e
  | _ => false

/-- The predicate in the host reading, under an odd number of negations when `negated`. -/
def adjustUnder (negated : Bool) (e : Expr) : Expr :=
  if e.isExpanded then e
  else match e with
    | binary .and l r => and (l.adjustUnder negated) (r.adjustUnder negated)
    | binary .or l r => or (l.adjustUnder negated) (r.adjustUnder negated)
    | not e => not (e.adjustUnder (!negated))
    | binary .eq l r => hostEquality l r
    | binary .ne l r => hostInequality l r
    | binary op l r => if negated && op.isOrdering then hostOrdering op l r else binary op l r
    | e => e

/-- The predicate with its comparisons spelled out for a null mode. -/
def adjust (mode : NullMode) (e : Expr) : Expr :=
  match mode with
  | .host => e.adjustUnder false
  | .native => e

end Expr

/-- The plan with every filter adjusted to a null mode. -/
def Plan.adjust (mode : NullMode) : Plan → Plan
  | .source relation => .source relation
  | .filter predicate p => .filter (predicate.adjust mode) (p.adjust mode)
  | .project columns p => .project columns (p.adjust mode)
  | .sort keys p => .sort keys (p.adjust mode)
  | .skip count p => .skip count (p.adjust mode)
  | .take count p => .take count (p.adjust mode)
  | .ofType subtype p => .ofType subtype (p.adjust mode)

end EntityQuery
