/-
# Adjusted comparisons are never unknown

In the host reading a comparison is true or false, whatever is null.  The expansions give the engine
the same answer, so a predicate that is made of expanded comparisons and null tests is never unknown.
Orderings are expanded under an odd number of negations only, and an equality of two literals is not
expanded at all: if one of them is null, the engine does not know the answer.

* `Expr.isTestUnder`: predicates made of null tests and of comparisons that are expanded;
* `Expr.truth_ne_unknown_of_hostComparison`: an expanded comparison is never unknown;
* `Expr.truth_adjust_ne_unknown`: neither is an adjusted predicate, unless a literal is equated with
  the null literal;
* `Expr.truth_adjust_of_nullAmongLiterals`: such an equation is unknown on every row.
-/
import EntityQuery.Proofs.Nulls

namespace EntityQuery

/-! ## Known truth values -/

namespace Truth

theorem ofBool_ne_unknown (b : Bool) : ofBool b ≠ unknown := by
  cases b <;> decide

/-- Connectives of what is known are known. -/
theorem and_ne_unknown {s t : Truth} (hs : s ≠ unknown) (ht : t ≠ unknown) : s.and t ≠ unknown := by
  revert hs ht
  cases s <;> cases t <;> decide

theorem or_ne_unknown {s t : Truth} (hs : s ≠ unknown) (ht : t ≠ unknown) : s.or t ≠ unknown := by
  revert hs ht
  cases s <;> cases t <;> decide

theorem not_ne_unknown {t : Truth} (ht : t ≠ unknown) : t.not ≠ unknown := by
  revert ht
  cases t <;> decide

end Truth

/-- The host language always knows the answer of a comparison. -/
theorem Engine.comparison_host_ne_unknown (engine : Engine) (op : Op) (v w : Value) :
    engine.comparison .host op v w ≠ .unknown := by
  unfold comparison
  split
  · exact Truth.ofBool_ne_unknown _
  · exact Truth.ofBool_ne_unknown _

namespace Expr

/-! ## Tests -/

/-- Whether connectives and negations join null tests, equalities, inequalities and, under an odd
number of negations, orderings, all of them with comparison-free operands; `negated` says whether the
number of negations around the expression is odd. -/
def isTestUnder (negated : Bool) : Expr → Bool
  | binary op l r =>
    if op.isConnective then l.isTestUnder negated && r.isTestUnder negated
    else (op = .eq || op = .ne || negated && op.isOrdering) && l.comparisonFree && r.comparisonFree
  | not e => e.isTestUnder !negated
  | isNull e | isNotNull e => e.comparisonFree
  | _ => false

/-- Whether an equality or inequality of two literals, one of them null, is among the parts that
connectives and negations join. -/
def equatesNullLiteral : Expr → Bool
  | binary op l r =>
    if op.isConnective then l.equatesNullLiteral || r.equatesNullLiteral
    else (op = .eq || op = .ne) && nullAmongLiterals l r
  | not e => e.equatesNullLiteral
  | _ => false

section

variable {negated : Bool} {op : Op} {l r e : Expr}

/-- A connective is a test if both its parts are. -/
theorem isTestUnder_connective (hop : op.isConnective = true) :
    (binary op l r).isTestUnder negated = (l.isTestUnder negated && r.isTestUnder negated) := by
  rw [isTestUnder, if_pos hop]

/-- A connective equates null where one of its parts does. -/
theorem equatesNullLiteral_connective (hop : op.isConnective = true) :
    (binary op l r).equatesNullLiteral = (l.equatesNullLiteral || r.equatesNullLiteral) := by
  rw [equatesNullLiteral, if_pos hop]

/-- What a test that is a comparison asks of its operator and operands. -/
theorem isTestUnder_comparison (hop : op.isConnective = false)
    (h : (binary op l r).isTestUnder negated = true) :
    (op = .eq ∨ op = .ne ∨ negated = true ∧ op.isOrdering = true) ∧ l.comparisonFree = true ∧
      r.comparisonFree = true := by
  rw [isTestUnder, hop] at h
  simpa [and_assoc, or_assoc] using h

theorem isTestUnder_leftmost (h : e.isTestUnder negated = true) :
    e.leftmost.isTestUnder negated = true := by
  fun_induction leftmost e with
  | case1 op l r hop ih =>
    rw [isTestUnder_connective hop, Bool.and_eq_true] at h
    exact ih h.1
  | case2 op l r hop => exact h
  | case3 e hne => exact h

/-- The leftmost part equates null only where the whole does. -/
theorem equatesNullLiteral_leftmost (h : e.equatesNullLiteral = false) :
    e.leftmost.equatesNullLiteral = false := by
  fun_induction leftmost e with
  | case1 op l r hop ih =>
    rw [equatesNullLiteral_connective hop, Bool.or_eq_false_iff] at h
    exact ih h.1
  | case2 op l r hop => exact h
  | case3 e hne => exact h

end

/-! ## Adjusted tests -/

section

variable {engine : Engine} {mode : NullMode} {row : Row}

/-- **An expanded comparison is never unknown**, unless it equates a literal with the null
literal. -/
theorem truth_ne_unknown_of_hostComparison {negated : Bool} {c e : Expr}
    (h : c.hostComparison? = some e) (htest : c.isTestUnder negated = true)
    (hnull : c.equatesNullLiteral = false) : e.truth engine mode row ≠ .unknown := by
  unfold hostComparison? at h
  split at h
  next l r =>
    obtain rfl := Option.some.inj h
    obtain ⟨-, hl, hr⟩ := isTestUnder_comparison rfl htest
    rw [truth_hostEquality hl hr hnull]
    exact engine.comparison_host_ne_unknown _ _ _
  next l r =>
    obtain rfl := Option.some.inj h
    obtain ⟨-, hl, hr⟩ := isTestUnder_comparison rfl htest
    rw [truth_hostInequality hl hr hnull]
    exact engine.comparison_host_ne_unknown _ _ _
  next op l r _ _ =>
    split at h
    next hop =>
      -- an ordering guards its literals as well, so these are not asked about
      obtain rfl := Option.some.inj h
      have hconnective := Op.isConnective_of_isComparison (Op.isComparison_of_isOrdering hop)
      obtain ⟨-, hl, hr⟩ := isTestUnder_comparison hconnective htest
      rw [truth_hostOrdering hop hl hr]
      exact engine.comparison_host_ne_unknown _ _ _
    next => cases h
  next => cases h

/-- A test adjusted under a number of negations is never unknown. -/
theorem truth_adjustUnder_ne_unknown {negated : Bool} {e : Expr}
    (htest : e.isTestUnder negated = true) (hnull : e.equatesNullLiteral = false) :
    (e.adjustUnder negated).truth engine .native row ≠ .unknown := by
  fun_induction adjustUnder negated e with
  | case1 negated e hexpanded =>
    exact truth_ne_unknown_of_hostComparison (hostComparison_leftmost hexpanded)
      (isTestUnder_leftmost htest) (equatesNullLiteral_leftmost hnull)
  | case2 negated l r _ ihl ihr =>
    rw [isTestUnder_connective rfl, Bool.and_eq_true] at htest
    rw [equatesNullLiteral_connective rfl, Bool.or_eq_false_iff] at hnull
    rw [truth_and]
    exact Truth.and_ne_unknown (ihl htest.1 hnull.1) (ihr htest.2 hnull.2)
  | case3 negated l r _ ihl ihr =>
    rw [isTestUnder_connective rfl, Bool.and_eq_true] at htest
    rw [equatesNullLiteral_connective rfl, Bool.or_eq_false_iff] at hnull
    rw [truth_or]
    exact Truth.or_ne_unknown (ihl htest.1 hnull.1) (ihr htest.2 hnull.2)
  | case4 negated e _ ih =>
    rw [truth_not]
    exact Truth.not_ne_unknown (ih htest hnull)
  | case5 negated l r _ => exact truth_ne_unknown_of_hostComparison rfl htest hnull
  | case6 negated l r _ => exact truth_ne_unknown_of_hostComparison rfl htest hnull
  | case7 negated op l r _ _ heq hne hordering =>
    rw [Bool.and_eq_true] at hordering
    exact truth_ne_unknown_of_hostComparison (hostComparison_of_isOrdering hordering.2) htest hnull
  | case8 negated op l r hand hor heq hne hordering =>
    -- arithmetic is no test, and neither is an ordering that is not expanded
    have hconnective : op.isConnective = false := by
      cases op with
      | and => exact (hand rfl).elim
      | or => exact (hor rfl).elim
      | add | sub | mul | div | mod | eq | ne | lt | le | gt | ge => rfl
    obtain ⟨hop | hop | hop, -⟩ := isTestUnder_comparison hconnective htest
    · exact (heq hop).elim
    · exact (hne hop).elim
    · exact (hordering (Bool.and_eq_true_iff.mpr hop)).elim
  | case9 negated e hand hor hnot heq hne hbinary =>
    cases e with
    | binary op l r => exact (hbinary op l r rfl).elim
    | not e => exact (hnot e rfl).elim
    | isNull e =>
      rw [truth_isNull]
      exact Truth.ofBool_ne_unknown _
    | isNotNull e =>
      rw [truth_isNotNull]
      exact Truth.ofBool_ne_unknown _
    | column | literal | inList | caseWhen => cases htest

end

/-- **Adjusted predicates are never unknown.**  Connectives and negations of null tests, equalities,
inequalities and negated orderings are true or false on every row once they are adjusted, unless a
literal is equated with the null literal. -/
theorem truth_adjust_ne_unknown (engine : Engine) (row : Row) (e : Expr)
    (htest : e.isTestUnder false = true) (hnull : e.equatesNullLiteral = false) :
    (e.adjust .host).truth engine .native row ≠ .unknown := by
  change (e.adjustUnder false).truth engine .native row ≠ .unknown
  exact truth_adjustUnder_ne_unknown htest hnull

/-- Not older than an unknown age nor of the breeder, and with a name. -/
def namedElsewhere : Expr :=
  and (not (or (binary .gt (column "Age") (literal .null))
      (binary .eq (column "Owner") (column "Breeder"))))
    (binary .ne (literal .null) (column "Name"))

/-- On a row of nulls the engine alone does not know the answer. -/
theorem truth_adjust_ne_unknown_namedElsewhere :
    namedElsewhere.isTestUnder false = true ∧ namedElsewhere.equatesNullLiteral = false ∧
      namedElsewhere.truth Engine.standard .native (fun _ => .null) = .unknown ∧
      (namedElsewhere.adjust .host).truth Engine.standard .native (fun _ => .null) ≠ .unknown :=
  ⟨by decide, by decide, by decide,
    truth_adjust_ne_unknown Engine.standard (fun _ => .null) namedElsewhere (by decide)
      (by decide)⟩

/-- **Equations with the null literal stay unknown**: an equality or inequality of two literals, one
of them null, is unknown on every row. -/
theorem truth_adjust_of_nullAmongLiterals {op : Op} (hop : op = .eq ∨ op = .ne) {l r : Expr}
    (hnull : nullAmongLiterals l r = true) (engine : Engine) (row : Row) :
    ((binary op l r).adjust .host).truth engine .native row = .unknown := by
  rw [nullAmongLiterals, Bool.and_eq_true, Bool.and_eq_true] at hnull
  obtain ⟨⟨hl, hr⟩, hnull⟩ := hnull
  have hsame : (binary op l r).adjust .host = binary op l r := by
    rcases hop with rfl | rfl
    · show hostEquality l r = _
      rw [hostEquality, hl, hr]
      rfl
    · show hostInequality l r = _
      rw [hostInequality, hl, hr]
      rfl
  have hcomparison : op.isComparison = true := by
    rcases hop with rfl | rfl <;> rfl
  rw [hsame, truth_comparison hcomparison, Engine.comparison, isNull_eval_literal hl,
    isNull_eval_literal hr, if_pos hnull]

/-- Null equals null. -/
def nullIsNull : Expr :=
  binary .eq (literal .null) (literal .null)

/-- In the host reading null equals null; the adjusted predicate is unknown all the same. -/
theorem truth_adjust_ne_unknown_nullIsNull :
    nullIsNull.isTestUnder false = true ∧
      nullIsNull.truth Engine.standard .host (fun _ => .null) = .holds ∧
      (nullIsNull.adjust .host).truth Engine.standard .native (fun _ => .null) = .unknown :=
  ⟨rfl, rfl, truth_adjust_of_nullAmongLiterals (.inl rfl) rfl Engine.standard _⟩

end Expr

end EntityQuery
