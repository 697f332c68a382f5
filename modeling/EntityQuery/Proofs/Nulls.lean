/-
# Adjusting filters is exact

A filter keeps a row or not; that its predicate is unknown rather than false shows only under a
negation.  An adjusted predicate therefore has to agree with the host reading on what it is asked
for: on being true, or on being false under an odd number of negations (`Expr.truth_adjustUnder`).
An expanded comparison agrees with the host reading altogether, and in both modes
(`Expr.truth_of_hostComparison`), which is why it may be left alone where it is met again.

Two things are asked of the predicate (`Expr.isPlain`): comparisons stand under connectives and
negations only, and no literal is compared with the null literal.

* `Expr.holds_adjust`: an adjusted filter keeps the rows that the filter keeps in the null mode;
* `Expr.adjust_exact`: the same of the truth of a predicate in the host reading;
* `Plan.results_adjust`: an adjusted plan gives the results of the plan.
-/
import EntityQuery.Proofs.Meaning

namespace EntityQuery

theorem Op.isComparison_of_isOrdering {op : Op} (h : op.isOrdering = true) :
    op.isComparison = true := by
  cases op with
  | lt | le | gt | ge => rfl
  | eq | ne | add | sub | mul | div | mod | and | or => cases h

theorem Op.isConnective_of_isComparison {op : Op} (h : op.isComparison = true) :
    op.isConnective = false := by
  cases op with
  | eq | ne | lt | le | gt | ge => rfl
  | add | sub | mul | div | mod | and | or => cases h

namespace Expr

/-! ## Plain predicates -/

/-- Whether no comparison occurs in the expression. -/
def comparisonFree : Expr → Bool
  | column _ | literal _ => true
  | binary op l r => !op.isComparison && l.comparisonFree && r.comparisonFree
  | not e | isNull e | isNotNull e | inList e _ => e.comparisonFree
  | caseWhen c r => c.comparisonFree && r.comparisonFree

/-- Whether both expressions are literals and one is null. -/
def nullAmongLiterals (l r : Expr) : Bool :=
  l.isLiteral && r.isLiteral && (l.isNullLiteral || r.isNullLiteral)

/-- Whether connectives and negations join expressions with comparison-free operands, none of which
compares two literals of which one is null. -/
def isPlain : Expr → Bool
  | binary op l r =>
    if op.isConnective then l.isPlain && r.isPlain
    else l.comparisonFree && r.comparisonFree && !(op.isComparison && nullAmongLiterals l r)
  | not e => e.isPlain
  | e => e.comparisonFree

section

variable {engine : Engine} {row : Row}

/-- Without comparisons the null mode does not matter. -/
theorem eval_comparisonFree {e : Expr} (h : e.comparisonFree = true) (mode : NullMode) :
    e.eval engine mode row = e.eval engine .native row := by
  induction e with
  | column name => rfl
  | literal v => rfl
  | binary op l r ihl ihr =>
    simp only [comparisonFree, Bool.and_eq_true] at h
    obtain ⟨⟨hop, hl⟩, hr⟩ := h
    rw [eval, eval, ihl hl, ihr hr]
    cases op with
    | eq | ne | lt | le | gt | ge => cases hop
    | add | sub | mul | div | mod | and | or => rfl
  | not e ih | isNull e ih | isNotNull e ih | inList e values ih =>
    rw [eval, eval, ih h]
  | caseWhen c r ihc ihr =>
    simp only [comparisonFree, Bool.and_eq_true] at h
    rw [eval, eval, ihc h.1, ihr h.2]

/-! ## Expanded comparisons -/

/-- A comparison compares the values of its operands. -/
theorem truth_comparison {op : Op} (hop : op.isComparison = true) (mode : NullMode) (l r : Expr) :
    (binary op l r).truth engine mode row =
      engine.comparison mode op (l.eval engine mode row) (r.eval engine mode row) := by
  cases op with
  | eq | ne | lt | le | gt | ge => simp [truth, eval, Engine.binary]
  | add | sub | mul | div | mod | and | or => cases hop

@[simp] theorem truth_isNull (mode : NullMode) (e : Expr) :
    (isNull e).truth engine mode row = .ofBool (e.eval engine mode row).isNull := by
  simp [truth, eval]

@[simp] theorem truth_isNotNull (mode : NullMode) (e : Expr) :
    (isNotNull e).truth engine mode row = .ofBool !(e.eval engine mode row).isNull := by
  simp [truth, eval]

/-- A literal is null where it is the null literal. -/
theorem isNull_eval_literal {e : Expr} (h : e.isLiteral = true) (mode : NullMode) :
    (e.eval engine mode row).isNull = e.isNullLiteral := by
  cases e with
  | literal v => rfl
  | column | binary | not | isNull | isNotNull | inList | caseWhen => cases h

theorem isLiteral_of_isNullLiteral {e : Expr} (h : e.isNullLiteral = true) :
    e.isLiteral = true := by
  cases e with
  | literal v => rfl
  | column | binary | not | isNull | isNotNull | inList | caseWhen => cases h

end

end Expr

/-! ## Comparisons of values

What the expansions of a comparison amount to, value by value, in either mode. -/

namespace Engine

variable (engine : Engine) (mode : NullMode) (v w : Value)

/-- Equality and inequality do not depend on the order of their operands. -/
theorem comparison_comm {op : Op} (hop : op = .eq ∨ op = .ne) :
    engine.comparison mode op v w = engine.comparison mode op w v := by
  have htrans : Std.TransCmp engine.order := engine.order_trans
  have hswap : engine.order v w = (engine.order w v).swap := htrans.eq_swap
  have haccepts : op.accepts (engine.order v w) = op.accepts (engine.order w v) := by
    rw [hswap]
    rcases hop with rfl | rfl <;> cases engine.order w v <;> rfl
  have hnulls : op.acceptsNulls v.isNull w.isNull = op.acceptsNulls w.isNull v.isNull := by
    rcases hop with rfl | rfl <;> cases v.isNull <;> cases w.isNull <;> rfl
  unfold comparison
  rw [haccepts, hnulls, Bool.or_comm]

variable {v w}

/-- Without nulls the modes agree. -/
theorem comparison_of_notNull {op : Op} (hv : v.isNull = false) (hw : w.isNull = false) :
    engine.comparison mode op v w = engine.comparison .host op v w := by
  unfold comparison
  rw [hv, hw]
  rfl

/-- In the host reading, equality to null is the null test. -/
theorem comparison_eq_null (hw : w.isNull = true) :
    engine.comparison .host .eq v w = .ofBool v.isNull := by
  unfold comparison
  rw [hw]
  cases v.isNull <;> rfl

theorem comparison_ne_null (hw : w.isNull = true) :
    engine.comparison .host .ne v w = .ofBool !v.isNull := by
  unfold comparison
  rw [hw]
  cases v.isNull <;> rfl

/-- Against a value that is not null, equality needs a test of the other side only. -/
theorem comparison_eq_notNull (hw : w.isNull = false) :
    engine.comparison .host .eq v w =
      (engine.comparison mode .eq v w).and (.ofBool !v.isNull) := by
  unfold comparison
  rw [hw]
  cases v.isNull <;> cases mode <;> cases Op.accepts .eq (engine.order v w) <;> rfl

/-- Against a value that is not null, inequality also holds of null. -/
theorem comparison_ne_notNull (hw : w.isNull = false) :
    engine.comparison .host .ne v w =
      (engine.comparison mode .ne v w).or (.ofBool v.isNull) := by
  unfold comparison
  rw [hw]
  cases v.isNull <;> cases mode <;> cases Op.accepts .ne (engine.order v w) <;> rfl

variable (v w)

/-- Equality in the host reading: equal values that are not null, or both are null. -/
theorem comparison_eq_expanded :
    engine.comparison .host .eq v w =
      (((engine.comparison mode .eq v w).and (.ofBool !v.isNull)).and (.ofBool !w.isNull)).or
        ((Truth.ofBool v.isNull).and (.ofBool w.isNull)) := by
  unfold comparison
  cases v.isNull <;> cases w.isNull <;> cases mode <;>
    cases Op.accepts .eq (engine.order v w) <;> rfl

/-- Inequality in the host reading: different values that are not null, or exactly one is null. -/
theorem comparison_ne_expanded :
    engine.comparison .host .ne v w =
      ((((engine.comparison mode .ne v w).and (.ofBool !v.isNull)).and (.ofBool !w.isNull)).or
        ((Truth.ofBool v.isNull).and (.ofBool !w.isNull))).or
          ((Truth.ofBool !v.isNull).and (.ofBool w.isNull)) := by
  unfold comparison
  cases v.isNull <;> cases w.isNull <;> cases mode <;>
    cases Op.accepts .ne (engine.order v w) <;> rfl

/-- In the host reading nothing is ordered before or behind null. -/
theorem comparison_ordering {op : Op} (hop : op.isOrdering = true) :
    engine.comparison .host op v w =
      ((engine.comparison mode op v w).and (.ofBool !v.isNull)).and (.ofBool !w.isNull) := by
  have hnulls : ∀ a b, op.acceptsNulls a b = false := by
    cases op with
    | lt | le | gt | ge => exact fun _ _ => rfl
    | eq | ne | add | sub | mul | div | mod | and | or => cases hop
  unfold comparison
  rw [hnulls]
  cases v.isNull <;> cases w.isNull <;> cases mode <;>
    cases op.accepts (engine.order v w) <;> rfl

/-- An ordering that meets a null is not true in either mode. -/
theorem comparison_ordering_eq_holds {op : Op} (hop : op.isOrdering = true) :
    engine.comparison .native op v w = .holds ↔ engine.comparison .host op v w = .holds := by
  rw [engine.comparison_ordering .native v w hop, Truth.and_eq_holds, Truth.and_eq_holds]
  unfold comparison
  cases v.isNull <;> cases w.isNull <;> simp

end Engine

namespace Expr

/-! ## Expanded comparisons -/

section

variable {engine : Engine} {row : Row}

section Expansions

variable {l r : Expr} {mode : NullMode}

/-- Operands without comparisons are compared by their values. -/
theorem truth_comparison_comparisonFree {op : Op} (hop : op.isComparison = true)
    (hl : l.comparisonFree = true) (hr : r.comparisonFree = true) :
    (binary op l r).truth engine mode row =
      engine.comparison mode op (l.eval engine .native row) (r.eval engine .native row) := by
  rw [truth_comparison hop, eval_comparisonFree hl mode, eval_comparisonFree hr mode]

/-- Two literals that may be compared are not null. -/
theorem notNull_of_literals (hliterals : nullAmongLiterals l r = false)
    (h : (l.isLiteral && r.isLiteral) = true) :
    (l.eval engine mode row).isNull = false ∧ (r.eval engine mode row).isNull = false := by
  rw [nullAmongLiterals, h, Bool.true_and, Bool.or_eq_false_iff] at hliterals
  rw [Bool.and_eq_true] at h
  rw [isNull_eval_literal h.1, isNull_eval_literal h.2]
  exact hliterals

/-- The expansion of an equality means the equality in the host reading. -/
theorem truth_hostEquality (hl : l.comparisonFree = true) (hr : r.comparisonFree = true)
    (hliterals : nullAmongLiterals l r = false) :
    (hostEquality l r).truth engine mode row =
      engine.comparison .host .eq (l.eval engine .native row) (r.eval engine .native row) := by
  unfold hostEquality
  split_ifs with hboth hnullR hnullL hlitR hlitL
  · obtain ⟨hv, hw⟩ := notNull_of_literals hliterals hboth
    rw [truth_comparison_comparisonFree rfl hl hr, engine.comparison_of_notNull mode hv hw]
  · rw [truth_isNull, eval_comparisonFree hl mode, engine.comparison_eq_null]
    rw [isNull_eval_literal (isLiteral_of_isNullLiteral hnullR), hnullR]
  · rw [truth_isNull, eval_comparisonFree hr mode, engine.comparison_comm .host _ _ (Or.inl rfl),
      engine.comparison_eq_null]
    rw [isNull_eval_literal (isLiteral_of_isNullLiteral hnullL), hnullL]
  · rw [truth_and, truth_comparison_comparisonFree rfl hr hl, truth_isNotNull,
      eval_comparisonFree hl mode, engine.comparison_comm mode _ _ (Or.inl rfl),
      engine.comparison_eq_notNull mode]
    rw [isNull_eval_literal hlitR, Bool.eq_false_iff]
    exact hnullR
  · rw [truth_and, truth_comparison_comparisonFree rfl hl hr, truth_isNotNull,
      eval_comparisonFree hr mode, engine.comparison_comm mode _ _ (Or.inl rfl),
      engine.comparison_comm .host _ _ (Or.inl rfl), engine.comparison_eq_notNull mode]
    rw [isNull_eval_literal hlitL, Bool.eq_false_iff]
    exact hnullL
  · have hcompare : (binary .eq l r).truth engine mode row = _ :=
      truth_comparison_comparisonFree rfl hl hr
    simp only [truth_or, truth_and, truth_isNotNull, truth_isNull, eval_comparisonFree hl mode,
      eval_comparisonFree hr mode, hcompare]
    exact (engine.comparison_eq_expanded mode _ _).symm

theorem truth_hostInequality (hl : l.comparisonFree = true) (hr : r.comparisonFree = true)
    (hliterals : nullAmongLiterals l r = false) :
    (hostInequality l r).truth engine mode row =
      engine.comparison .host .ne (l.eval engine .native row) (r.eval engine .native row) := by
  unfold hostInequality
  split_ifs with hboth hnullR hnullL hlitR hlitL
  · obtain ⟨hv, hw⟩ := notNull_of_literals hliterals hboth
    rw [truth_comparison_comparisonFree rfl hl hr, engine.comparison_of_notNull mode hv hw]
  · rw [truth_isNotNull, eval_comparisonFree hl mode, engine.comparison_ne_null]
    rw [isNull_eval_literal (isLiteral_of_isNullLiteral hnullR), hnullR]
  · rw [truth_isNotNull, eval_comparisonFree hr mode, engine.comparison_comm .host _ _ (Or.inr rfl),
      engine.comparison_ne_null]
    rw [isNull_eval_literal (isLiteral_of_isNullLiteral hnullL), hnullL]
  · rw [truth_or, truth_comparison_comparisonFree rfl hl hr, truth_isNull,
      eval_comparisonFree hl mode, engine.comparison_ne_notNull mode]
    rw [isNull_eval_literal hlitR, Bool.eq_false_iff]
    exact hnullR
  · rw [truth_or, truth_comparison_comparisonFree rfl hr hl, truth_isNull,
      eval_comparisonFree hr mode, engine.comparison_comm .host _ _ (Or.inr rfl),
      engine.comparison_ne_notNull mode]
    rw [isNull_eval_literal hlitL, Bool.eq_false_iff]
    exact hnullL
  · have hcompare : (binary .ne l r).truth engine mode row = _ :=
      truth_comparison_comparisonFree rfl hl hr
    simp only [truth_or, truth_and, truth_isNotNull, truth_isNull, eval_comparisonFree hl mode,
      eval_comparisonFree hr mode, hcompare]
    exact (engine.comparison_ne_expanded mode _ _).symm

/-- A guard makes the expression false where its operand is null; one that is left out would not. -/
theorem truth_guardedBy {e operand : Expr} : (e.guardedBy operand).truth engine mode row =
    (e.truth engine mode row).and (.ofBool !(operand.eval engine mode row).isNull) := by
  unfold guardedBy
  split
  next h =>
    rw [Bool.and_eq_true] at h
    rw [isNull_eval_literal h.1, h.2]
    cases e.truth engine mode row <;> rfl
  next => rw [truth_and, truth_isNotNull]

theorem truth_hostOrdering {op : Op} (hop : op.isOrdering = true) (hl : l.comparisonFree = true)
    (hr : r.comparisonFree = true) :
    (hostOrdering op l r).truth engine mode row =
      engine.comparison .host op (l.eval engine .native row) (r.eval engine .native row) := by
  rw [hostOrdering, truth_guardedBy, truth_guardedBy,
    truth_comparison_comparisonFree (Op.isComparison_of_isOrdering hop) hl hr,
    eval_comparisonFree hl mode, eval_comparisonFree hr mode]
  exact (engine.comparison_ordering mode _ _ hop).symm

/-- Every ordering is expanded. -/
theorem hostComparison_of_isOrdering {op : Op} (h : op.isOrdering = true) :
    (binary op l r).hostComparison? = some (hostOrdering op l r) := by
  cases op with
  | lt | le | gt | ge => rfl
  | eq | ne | add | sub | mul | div | mod | and | or => cases h

/-- What a plain comparison asks of its operands. -/
theorem isPlain_comparison {op : Op} (hop : op.isComparison = true)
    (h : (binary op l r).isPlain = true) :
    l.comparisonFree = true ∧ r.comparisonFree = true ∧ nullAmongLiterals l r = false := by
  have hconnective := Op.isConnective_of_isComparison hop
  simp only [isPlain, hconnective, hop, Bool.false_eq_true, if_false, Bool.and_eq_true,
    Bool.true_and, Bool.not_eq_true'] at h
  exact ⟨h.1.1, h.1.2, h.2⟩

/-- **Expanded comparisons are exact.**  In either mode the expansion of a comparison has the truth
value that the comparison has in the host reading. -/
theorem truth_of_hostComparison {c e : Expr} (h : c.hostComparison? = some e)
    (hplain : c.isPlain = true) : e.truth engine mode row = c.truth engine .host row := by
  unfold hostComparison? at h
  split at h
  next l r =>
    obtain rfl := Option.some.inj h
    obtain ⟨hl, hr, hliterals⟩ := isPlain_comparison rfl hplain
    rw [truth_hostEquality hl hr hliterals, truth_comparison_comparisonFree rfl hl hr]
  next l r =>
    obtain rfl := Option.some.inj h
    obtain ⟨hl, hr, hliterals⟩ := isPlain_comparison rfl hplain
    rw [truth_hostInequality hl hr hliterals, truth_comparison_comparisonFree rfl hl hr]
  next op l r _ _ =>
    split at h
    next hop =>
      have hcomparison := Op.isComparison_of_isOrdering hop
      obtain rfl := Option.some.inj h
      obtain ⟨hl, hr, -⟩ := isPlain_comparison hcomparison hplain
      rw [truth_hostOrdering hop hl hr, truth_comparison_comparisonFree hcomparison hl hr]
    next => cases h
  next => cases h

end Expansions

/-! ## Adjusted predicates -/

/-- The leftmost part of a plain predicate is plain. -/
theorem isPlain_leftmost {e : Expr} (h : e.isPlain = true) : e.leftmost.isPlain = true := by
  fun_induction leftmost e with
  | case1 op l r hop ih =>
    simp only [isPlain, hop, if_true, Bool.and_eq_true] at h
    exact ih h.1
  | case2 op l r hop => exact h
  | case3 e hne => exact h

/-- What is recognised as an expansion is that of the comparison at its far left. -/
theorem hostComparison_leftmost {e : Expr} (h : e.isExpanded = true) :
    e.leftmost.hostComparison? = some e := by
  unfold isExpanded at h
  split at h
  · simp only [Bool.and_eq_true, decide_eq_true_eq] at h
    exact h.2
  · cases h

/-- An expanded comparison reads the same in both modes. -/
theorem truth_of_isExpanded {e : Expr} (h : e.isExpanded = true) (hplain : e.isPlain = true) :
    e.truth engine .native row = e.truth engine .host row := by
  have hcomparison := hostComparison_leftmost h
  rw [truth_of_hostComparison hcomparison (isPlain_leftmost hplain),
    truth_of_hostComparison hcomparison (isPlain_leftmost hplain)]

/-- What a predicate is asked for: to be false under an odd number of negations, else to be true. -/
def asked (negated : Bool) : Truth := if negated then .fails else .holds

/-- What is asked of a conjunction depends on what is asked of its parts only. -/
theorem and_asked_congr {negated : Bool} {s t s' t' : Truth}
    (hs : s = asked negated ↔ s' = asked negated) (ht : t = asked negated ↔ t' = asked negated) :
    s.and t = asked negated ↔ s'.and t' = asked negated := by
  cases negated with
  | false => exact Truth.and_eq_holds.trans ((and_congr hs ht).trans Truth.and_eq_holds.symm)
  | true => exact Truth.and_eq_fails.trans ((or_congr hs ht).trans Truth.and_eq_fails.symm)

theorem or_asked_congr {negated : Bool} {s t s' t' : Truth}
    (hs : s = asked negated ↔ s' = asked negated) (ht : t = asked negated ↔ t' = asked negated) :
    s.or t = asked negated ↔ s'.or t' = asked negated := by
  cases negated with
  | false => exact Truth.or_eq_holds.trans ((or_congr hs ht).trans Truth.or_eq_holds.symm)
  | true => exact Truth.or_eq_fails.trans ((and_congr hs ht).trans Truth.or_eq_fails.symm)

/-- Under a negation the opposite is asked. -/
theorem not_asked_congr {negated : Bool} {t t' : Truth}
    (ht : t = asked (!negated) ↔ t' = asked (!negated)) :
    t.not = asked negated ↔ t'.not = asked negated := by
  cases negated with
  | false => exact Truth.not_eq_holds.trans (ht.trans Truth.not_eq_holds.symm)
  | true => exact Truth.not_eq_fails.trans (ht.trans Truth.not_eq_fails.symm)

/-- Without comparisons a predicate has one truth value. -/
theorem truth_comparisonFree {e : Expr} (h : e.comparisonFree = true) :
    e.truth engine .native row = e.truth engine .host row := by
  rw [truth, truth, eval_comparisonFree h .host]

/-- **Adjusted predicates answer what they are asked** as the predicate does in the host reading. -/
theorem truth_adjustUnder {negated : Bool} {e : Expr} (hplain : e.isPlain = true) :
    (e.adjustUnder negated).truth engine .native row = asked negated ↔
      e.truth engine .host row = asked negated := by
  fun_induction adjustUnder negated e with
  | case1 negated e hexpanded => rw [truth_of_isExpanded hexpanded hplain]
  | case2 negated l r _ ihl ihr =>
    simp only [isPlain, Op.isConnective, if_true, Bool.and_eq_true] at hplain
    rw [truth_and, truth_and]
    exact and_asked_congr (ihl hplain.1) (ihr hplain.2)
  | case3 negated l r _ ihl ihr =>
    simp only [isPlain, Op.isConnective, if_true, Bool.and_eq_true] at hplain
    rw [truth_or, truth_or]
    exact or_asked_congr (ihl hplain.1) (ihr hplain.2)
  | case4 negated e _ ih =>
    rw [truth_not, truth_not]
    exact not_asked_congr (ih hplain)
  | case5 negated l r _ => rw [truth_of_hostComparison rfl hplain]
  | case6 negated l r _ => rw [truth_of_hostComparison rfl hplain]
  | case7 negated op l r _ _ heq hne hordering =>
    rw [Bool.and_eq_true] at hordering
    rw [truth_of_hostComparison (hostComparison_of_isOrdering hordering.2) hplain]
  | case8 negated op l r hand hor heq hne hordering =>
    cases op with
    | and => exact (hand rfl).elim
    | or => exact (hor rfl).elim
    | eq => exact (heq rfl).elim
    | ne => exact (hne rfl).elim
    | add | sub | mul | div | mod =>
      rw [truth_comparisonFree]
      simpa [isPlain, comparisonFree, Op.isConnective, Op.isComparison] using hplain
    | lt | le | gt | ge =>
      -- not negated, so asked to be true: no ordering is where it meets a null
      obtain ⟨hl, hr, -⟩ := isPlain_comparison rfl hplain
      obtain rfl : negated = false := by simpa [Op.isOrdering] using hordering
      rw [truth_comparison_comparisonFree rfl hl hr, truth_comparison_comparisonFree rfl hl hr]
      exact engine.comparison_ordering_eq_holds _ _ rfl
  | case9 negated e hand hor hnot heq hne hbinary =>
    cases e with
    | binary op l r => exact (hbinary op l r rfl).elim
    | not e => exact (hnot e rfl).elim
    | column | literal | isNull | isNotNull | inList | caseWhen => rw [truth_comparisonFree hplain]

/-- The expansion of a comparison reads the columns of its operands. -/
theorem references_subset_of_hostComparison {c e : Expr} (h : c.hostComparison? = some e) :
    e.references ⊆ c.references := by
  have hsubset : ∀ (op : Op) (l r : Expr) (e : Expr),
      (∀ name ∈ e.references, name ∈ l.references ∨ name ∈ r.references) →
        e.references ⊆ (binary op l r).references := by
    intro op l r e he name hname
    exact List.mem_append.mpr (he name hname)
  unfold hostComparison? at h
  split at h
  next l r =>
    obtain rfl := Option.some.inj h
    refine hsubset .eq l r _ fun name hname => ?_
    unfold hostEquality at hname
    split_ifs at hname <;> simp only [references, List.mem_append] at hname <;> tauto
  next l r =>
    obtain rfl := Option.some.inj h
    refine hsubset .ne l r _ fun name hname => ?_
    unfold hostInequality at hname
    split_ifs at hname <;> simp only [references, List.mem_append] at hname <;> tauto
  next op l r _ _ =>
    split at h
    next =>
      obtain rfl := Option.some.inj h
      refine hsubset op l r _ fun name hname => ?_
      unfold hostOrdering guardedBy at hname
      split_ifs at hname <;> simp only [references, List.mem_append] at hname <;> tauto
    next => cases h
  next => cases h

/-- An adjusted predicate reads no further columns. -/
theorem references_adjustUnder_subset (negated : Bool) (e : Expr) :
    (e.adjustUnder negated).references ⊆ e.references := by
  fun_induction adjustUnder negated e with
  | case2 negated l r _ ihl ihr | case3 negated l r _ ihl ihr =>
    intro name hname
    exact List.mem_append.mpr ((List.mem_append.mp hname).imp (@ihl name) (@ihr name))
  | case4 negated e _ ih => exact ih
  | case5 negated l r _ => exact references_subset_of_hostComparison rfl
  | case6 negated l r _ => exact references_subset_of_hostComparison rfl
  | case7 negated op l r _ _ heq hne hordering =>
    rw [Bool.and_eq_true] at hordering
    exact references_subset_of_hostComparison (hostComparison_of_isOrdering hordering.2)
  | case1 | case8 | case9 => exact List.Subset.refl _

/-- Adjusting reads no further columns. -/
theorem references_adjust_subset (mode : NullMode) (e : Expr) :
    (e.adjust mode).references ⊆ e.references := by
  cases mode with
  | native => exact List.Subset.refl _
  | host => exact references_adjustUnder_subset false e

/-- **Adjusting a filter is exact**: the engine keeps the rows that the null mode asks for. -/
theorem holds_adjust {e : Expr} (hplain : e.isPlain = true) (mode : NullMode) :
    (e.adjust mode).holds engine .native row = e.holds engine mode row := by
  cases mode with
  | native => rfl
  | host =>
    rw [adjust, holds, holds]
    exact decide_eq_decide.mpr (truth_adjustUnder hplain)

end

/-- **Adjusting is exact for filtering.**  On every row the engine finds the adjusted predicate true
exactly where the host language finds the predicate true. -/
theorem adjust_exact (engine : Engine) (row : Row) (e : Expr) (hplain : e.isPlain = true) :
    (e.adjust .host).truth engine .native row = .holds ↔ e.truth engine .host row = .holds := by
  have hasked : (e.adjustUnder false).truth engine .native row = asked false ↔
      e.truth engine .host row = asked false := truth_adjustUnder hplain
  exact hasked

/-- Not younger than three, and of another owner than Ada or of the breeder. -/
def adultElsewhere : Expr :=
  and (not (binary .lt (column "Age") (literal (.int 3))))
    (or (binary .ne (column "Owner") (literal (.string "Ada")))
      (binary .eq (column "Owner") (column "Breeder")))

/-- A row of nulls: the engine alone would not keep it, the host language does. -/
theorem adjust_exact_adultElsewhere :
    adultElsewhere.isPlain = true ∧
      adultElsewhere.truth Engine.standard .native (fun _ => .null) = .unknown ∧
      adultElsewhere.truth Engine.standard .host (fun _ => .null) = .holds ∧
      ((adultElsewhere.adjust .host).truth Engine.standard .native (fun _ => .null) = .holds ↔
        adultElsewhere.truth Engine.standard .host (fun _ => .null) = .holds) :=
  ⟨by decide, by decide, by decide,
    adjust_exact Engine.standard (fun _ => .null) adultElsewhere (by decide)⟩

end Expr

namespace Plan

/-! ## Adjusted plans -/

/-- Whether every filter of the plan has a plain predicate. -/
def plainFilters : Plan → Bool
  | source _ => true
  | filter predicate p => predicate.isPlain && p.plainFilters
  | project _ p | sort _ p | skip _ p | take _ p | ofType _ p => p.plainFilters

/-- The engine's reading of an adjusted plan is the reading of the plan in the null mode. -/
theorem results_adjust (store : Store) {plan : Plan} (hplain : plan.plainFilters = true) :
    (plan.adjust store.nulls).results { store with nulls := .native } = plan.results store := by
  induction plan with
  | source relation => rfl
  | filter predicate p ih =>
    rw [plainFilters, Bool.and_eq_true] at hplain
    simp only [adjust, results, ih hplain.2, Expr.holds_adjust hplain.1]
  | project _ p ih | sort _ p ih | skip _ p ih | take _ p ih | ofType _ p ih =>
    simp only [adjust, results, ih hplain]

end Plan

end EntityQuery
