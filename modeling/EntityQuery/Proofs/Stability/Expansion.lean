/-
# Adjusting again

An adjusted predicate is left alone where it is adjusted again, because every expansion is
recognised by the comparison at its far left.  That is a matter of how the predicate is grouped:
where merging filters takes an expansion apart, its comparison is expanded a second time.  Merging
takes nothing apart as long as the two filters have no conjunct in common.

* `Expr.adjustUnder_adjustUnder`, `Plan.adjust_idempotent`: adjusting is idempotent;
* `Plan.filters_of_step`: a step of lifting leaves the filters of a plan as they are or merges two
  neighbours;
* `Plan.adjust_sweepUpTo`: if no two filters have a conjunct in common, then lifting leaves an
  adjusted plan adjusted.
-/
import EntityQuery.Proofs.Stability.Text

namespace EntityQuery

namespace Expr

/-! ## Expansions are recognised -/

/-- An expanded comparison is not expanded again. -/
theorem adjustUnder_of_isExpanded {e : Expr} (h : e.isExpanded = true) (negated : Bool) :
    e.adjustUnder negated = e := by
  rw [adjustUnder.eq_def, if_pos h]

/-- An expanded equality is left as it is, under negations as well. -/
theorem adjustUnder_hostEquality (negated : Bool) (l r : Expr) :
    (hostEquality l r).adjustUnder negated = hostEquality l r := by
  by_cases hboth : (l.isLiteral && r.isLiteral) = true
  · simp [hostEquality, hboth, adjustUnder, isExpanded, Op.isConnective]
  · unfold hostEquality
    rw [if_neg hboth]
    split_ifs with hnullR hnullL hr hl
    · simp [adjustUnder, isExpanded]
    · simp [adjustUnder, isExpanded]
    -- the comparison at the far left may be turned round; it has the same expansion
    all_goals
      refine adjustUnder_of_isExpanded ?_ negated
      simp_all [isExpanded, leftmost, Op.isConnective, hostComparison?, hostEquality]

/-- An expanded inequality is left as it is, under negations as well. -/
theorem adjustUnder_hostInequality (negated : Bool) (l r : Expr) :
    (hostInequality l r).adjustUnder negated = hostInequality l r := by
  by_cases hboth : (l.isLiteral && r.isLiteral) = true
  · simp [hostInequality, hboth, adjustUnder, isExpanded, Op.isConnective]
  · unfold hostInequality
    rw [if_neg hboth]
    split_ifs with hnullR hnullL hr hl
    · simp [adjustUnder, isExpanded]
    · simp [adjustUnder, isExpanded]
    all_goals
      refine adjustUnder_of_isExpanded ?_ negated
      simp_all [isExpanded, leftmost, Op.isConnective, hostComparison?, hostInequality]

/-- A guard stands to the right of what it guards. -/
theorem leftmost_guardedBy (e operand : Expr) : (e.guardedBy operand).leftmost = e.leftmost := by
  unfold guardedBy
  split <;> rfl

/-- An ordering is guarded unless neither operand can be null. -/
theorem hostOrdering_cases (op : Op) (l r : Expr) :
    hostOrdering op l r = binary op l r ∨ ∃ e guard, hostOrdering op l r = and e guard := by
  unfold hostOrdering guardedBy
  split_ifs
  · exact Or.inl rfl
  all_goals exact Or.inr ⟨_, _, rfl⟩

/-- An expanded ordering is left as it is under a negation, the only place where orderings are
expanded. -/
theorem adjustUnder_hostOrdering {op : Op} (hop : op.isOrdering = true) (l r : Expr) :
    (hostOrdering op l r).adjustUnder true = hostOrdering op l r := by
  have hself : (binary op l r).adjustUnder true = hostOrdering op l r := by
    cases op with
    | lt | le | gt | ge => rfl
    | eq | ne | add | sub | mul | div | mod | and | or => cases hop
  have hleftmost : (hostOrdering op l r).leftmost = binary op l r := by
    rw [hostOrdering, leftmost_guardedBy, leftmost_guardedBy]
    cases op with
    | lt | le | gt | ge => rfl
    | eq | ne | add | sub | mul | div | mod | and | or => cases hop
  rcases hostOrdering_cases op l r with hplain | ⟨e, guard, hguarded⟩
  · rw [hplain, hself, hplain]
  · refine adjustUnder_of_isExpanded ?_ true
    rw [hguarded] at hleftmost ⊢
    rw [isExpanded, hleftmost, hostComparison_of_isOrdering hop, hguarded]
    simp [Op.isConnective]

/-- Connectives and negations of adjusted predicates are adjusted, recognised or not. -/
theorem adjustUnder_connective {op : Op} (hop : op.isConnective = true) {negated : Bool}
    {l r : Expr} (hl : l.adjustUnder negated = l) (hr : r.adjustUnder negated = r) :
    (binary op l r).adjustUnder negated = binary op l r := by
  rw [adjustUnder.eq_def]
  split
  next => rfl
  next =>
    cases op with
    | and | or => simp only [hl, hr]
    | eq | ne | lt | le | gt | ge | add | sub | mul | div | mod => cases hop

/-- A negation is left as it is if its operand is, under one negation more. -/
theorem adjustUnder_not {negated : Bool} {e : Expr} (h : e.adjustUnder (!negated) = e) :
    (not e).adjustUnder negated = not e := by
  rw [adjustUnder.eq_def]
  simp [isExpanded, h]

/-- Arithmetic is not adjusted. -/
theorem adjustUnder_arithmetic {op : Op} (hop : op.isArithmetic = true) (negated : Bool)
    (l r : Expr) : (binary op l r).adjustUnder negated = binary op l r := by
  cases op with
  | add | sub | mul | div | mod => cases negated <;> rfl
  | eq | ne | lt | le | gt | ge | and | or => cases hop

/-- **Adjusting is idempotent.** -/
theorem adjustUnder_adjustUnder (negated : Bool) (e : Expr) :
    (e.adjustUnder negated).adjustUnder negated = e.adjustUnder negated := by
  fun_induction adjustUnder negated e with
  | case1 e negated hexpanded => exact adjustUnder_of_isExpanded hexpanded negated
  | case2 negated l r _ ihl ihr => exact adjustUnder_connective rfl ihl ihr
  | case3 negated l r _ ihl ihr => exact adjustUnder_connective rfl ihl ihr
  | case4 negated e _ ih => exact adjustUnder_not ih
  | case5 negated l r => exact adjustUnder_hostEquality negated l r
  | case6 negated l r => exact adjustUnder_hostInequality negated l r
  | case7 negated op l r _ _ _ _ hordering =>
    obtain ⟨rfl, hop⟩ := Bool.and_eq_true_iff.mp hordering
    exact adjustUnder_hostOrdering hop l r
  | case8 negated op l r hand hor heq hne hordering =>
    cases op with
    | and => exact (hand rfl).elim
    | or => exact (hor rfl).elim
    | eq => exact (heq rfl).elim
    | ne => exact (hne rfl).elim
    | add | sub | mul | div | mod => exact adjustUnder_arithmetic rfl negated l r
    | lt | le | gt | ge =>
      obtain rfl : negated = false := by simpa [Op.isOrdering] using hordering
      rfl
  | case9 negated e hand hor hnot heq hne hbinary =>
    cases e with
    | binary op l r => exact (hbinary op l r rfl).elim
    | not e => exact (hnot e rfl).elim
    | column | literal | isNull | isNotNull | inList | caseWhen => rfl

/-- Without comparisons there is nothing to adjust. -/
theorem adjustUnder_of_comparisonFree {e : Expr} (h : e.comparisonFree = true) (negated : Bool) :
    e.adjustUnder negated = e := by
  induction e generalizing negated with
  | binary op l r ihl ihr =>
    simp only [comparisonFree, Bool.and_eq_true, Bool.not_eq_true'] at h
    obtain ⟨⟨hop, hl⟩, hr⟩ := h
    cases op with
    | and | or => exact adjustUnder_connective rfl (ihl hl negated) (ihr hr negated)
    | add | sub | mul | div | mod => exact adjustUnder_arithmetic rfl negated l r
    | eq | ne | lt | le | gt | ge => cases hop
  | not e ih => exact adjustUnder_not (ih h _)
  | column | literal | isNull | isNotNull | inList | caseWhen => rfl

end Expr

/-! ## Predicates without a common conjunct -/

/-- The predicates have no conjunct in common. -/
def Expr.Apart (e e' : Expr) : Prop :=
  ∀ c ∈ e.conjuncts, c ∉ e'.conjuncts

instance Expr.Apart.decidable (e e' : Expr) : Decidable (e.Apart e') :=
  inferInstanceAs (Decidable (∀ c ∈ e.conjuncts, c ∉ e'.conjuncts))

/-- A conjunction is apart from what both its parts are apart from. -/
theorem Expr.and_apart {l r e : Expr} : (and l r).Apart e ↔ l.Apart e ∧ r.Apart e := by
  simp only [Apart, conjuncts_and, List.forall_mem_append]

theorem Expr.apart_and {l r e : Expr} : e.Apart (and l r) ↔ e.Apart l ∧ e.Apart r := by
  simp only [Apart, conjuncts_and, List.mem_append, not_or, forall_and]

/-- Filters without a common conjunct are merged whole. -/
theorem fuse_of_apart {inner outer : Expr} (h : outer.Apart inner) :
    fuse inner outer = .and inner outer := by
  have hnone : ¬ (outer.conjuncts.any (inner.conjuncts.contains ·)) = true := by
    simpa [Expr.Apart] using h
  simp only [fuse]
  rw [if_neg hnone]

namespace Plan

/-! ## The filters of a plan -/

/-- The predicates of the filters of the plan, from the outermost to the innermost. -/
def filters : Plan → List Expr
  | source _ => []
  | filter e p => e :: p.filters
  | project _ p | sort _ p | skip _ p | take _ p | ofType _ p => p.filters

/-- No conjunct stands in two filters of the plan. -/
def DistinctFilters (plan : Plan) : Prop :=
  plan.filters.Pairwise Expr.Apart

instance DistinctFilters.decidable (plan : Plan) : Decidable plan.DistinctFilters :=
  inferInstanceAs (Decidable (plan.filters.Pairwise Expr.Apart))

section

variable {model : Model} {shaping : Shaping} {outer : Option String} {consumer : Consumer}
  {p q : Plan}

/-- The filters of an adjusted plan are the adjusted filters. -/
theorem filters_adjust (mode : NullMode) (plan : Plan) :
    (plan.adjust mode).filters = plan.filters.map (Expr.adjust mode) := by
  induction plan with
  | source relation => rfl
  | filter e p ih => exact congrArg (e.adjust mode :: ·) ih
  | project _ p ih | sort _ p ih | skip _ p ih | take _ p ih | ofType _ p ih => exact ih

/-- A plan whose filters are left as they are is left as it is. -/
theorem adjust_host_eq_self (h : ∀ e ∈ p.filters, e.adjustUnder false = e) :
    p.adjust .host = p := by
  induction p with
  | source relation => rfl
  | filter e p ih =>
    rw [adjust, ih fun d hd => h d (List.mem_cons_of_mem e hd)]
    exact congrArg (filter · p) (h e List.mem_cons_self)
  | project _ p ih | sort _ p ih | skip _ p ih | take _ p ih | ofType _ p ih => rw [adjust, ih h]

theorem adjust_native (plan : Plan) : plan.adjust .native = plan := by
  induction plan with
  | source relation => rfl
  | filter e p ih => exact congrArg (filter e) ih
  | project _ p ih | sort _ p ih | skip _ p ih | take _ p ih | ofType _ p ih => rw [adjust, ih]

/-- The filters of an adjusted plan are adjusted. -/
theorem adjusted_of_mem_filters_adjust (plan : Plan) :
    ∀ e ∈ (plan.adjust .host).filters, e.adjustUnder false = e := by
  rw [filters_adjust, List.forall_mem_map]
  intro e _
  exact Expr.adjustUnder_adjustUnder false e

/-- **Adjusting twice changes nothing**: neither a predicate nor a plan, in either null mode. -/
theorem adjust_idempotent (mode : NullMode) :
    (∀ e : Expr, (e.adjust mode).adjust mode = e.adjust mode) ∧
      ∀ plan : Plan, (plan.adjust mode).adjust mode = plan.adjust mode := by
  cases mode with
  | native => exact ⟨fun _ => rfl, fun plan => adjust_native (plan.adjust .native)⟩
  | host =>
    refine ⟨fun e => Expr.adjustUnder_adjustUnder false e, fun plan => ?_⟩
    exact adjust_host_eq_self (adjusted_of_mem_filters_adjust plan)

/-- The filters of a resolved plan are those of the plan and predicates of types. -/
theorem filters_of_resolveUnder {P : Expr → Prop}
    (htypes : ∀ name e, model.subtreePredicate? name = some e → P e) (hp : ∀ e ∈ p.filters, P e)
    (h : p.resolveUnder model shaping outer = .ok q) : ∀ e ∈ q.filters, P e := by
  induction p generalizing outer q with
  | source relation =>
    obtain ⟨set, -, h⟩ := exists_ok_of_bind_eq_ok h
    split at h
    next e he =>
      obtain rfl := Except.ok.inj h
      exact List.forall_mem_singleton.mpr
        (htypes _ e (Model.subtreePredicate_of_extentPredicate he))
    next =>
      obtain rfl := Except.ok.inj h
      exact hp
  | filter e p ih =>
    obtain ⟨input, hinput, rfl⟩ := exists_ok_of_bind_pure_eq_ok h
    obtain ⟨he, hp⟩ := List.forall_mem_cons.mp hp
    exact List.forall_mem_cons.mpr ⟨he, ih hp hinput⟩
  | project _ p ih | sort _ p ih | skip _ p ih | take _ p ih =>
    obtain ⟨input, hinput, rfl⟩ := exists_ok_of_bind_pure_eq_ok h
    have hfilters : ∀ e ∈ input.filters, P e := ih hp hinput
    exact hfilters
  | ofType subtype p ih =>
    obtain ⟨set, e, input, -, he, hinput, rfl⟩ := resolveUnder_ofType_eq_ok h
    have hfilters : ∀ e ∈ input.filters, P e := ih hp hinput
    have hrestricted : ∀ d ∈ (restrictedBy model set e input).filters, P d := by
      unfold restrictedBy
      split
      · exact hfilters
      · exact List.forall_mem_cons.mpr
          ⟨htypes _ e (Model.subtreePredicate_of_typePredicate he), hfilters⟩
    cases outer <;> exact hrestricted

/-- A step of lifting merges two neighbours among the filters, or leaves them as they are. -/
theorem filters_of_step (h : Step consumer p q) :
    q.filters = p.filters ∨ ∃ above outer inner below,
      p.filters = above ++ outer :: inner :: below ∧
        q.filters = above ++ fuse inner outer :: below := by
  induction h with
  | rule h =>
    cases h with
    | fuseFilters outer inner p => exact Or.inr ⟨[], outer, inner, p.filters, rfl, rfl⟩
    | sortOverFilter | sortOverType | mergeProjections | sortOverProjection | projectionBelowSkip
    | projectionBelowTake | dropShadowedSort | mergeSkips | skipBelowTake | mergeTakes =>
      exact Or.inl rfl
  | restate h => exact Or.inl rfl
  | filter e _ ih =>
    rcases ih with hsame | ⟨above, outer, inner, below, hp, hq⟩
    · exact Or.inl (congrArg (e :: ·) hsame)
    · exact Or.inr ⟨e :: above, outer, inner, below, congrArg (e :: ·) hp, congrArg (e :: ·) hq⟩
  | ofType _ _ ih | project _ _ ih | sort _ _ ih | skip _ _ ih | take _ _ ih => exact ih

/-! ## Adjusted plans under lifting -/

/-- Filters that are adjusted and apart stay so when neighbours are merged. -/
theorem adjusted_of_step (h : Step consumer p q) (hdistinct : p.DistinctFilters)
    (hadjusted : ∀ e ∈ p.filters, e.adjustUnder false = e) :
    q.DistinctFilters ∧ ∀ e ∈ q.filters, e.adjustUnder false = e := by
  rcases filters_of_step h with hsame | ⟨above, outer, inner, below, hp, hq⟩
  · rw [DistinctFilters, hsame]
    exact ⟨hdistinct, hadjusted⟩
  · rw [DistinctFilters, hp] at hdistinct
    rw [hp] at hadjusted
    simp only [List.pairwise_append, List.pairwise_cons, List.forall_mem_cons] at hdistinct
    simp only [List.forall_mem_append, List.forall_mem_cons] at hadjusted
    obtain ⟨habove, ⟨⟨hapart, houter⟩, hinner, hbelow⟩, hacross⟩ := hdistinct
    obtain ⟨hadjustedAbove, hadjustedOuter, hadjustedInner, hadjustedBelow⟩ := hadjusted
    rw [fuse_of_apart hapart] at hq
    rw [DistinctFilters, hq]
    constructor
    · rw [List.pairwise_append, List.pairwise_cons]
      refine ⟨habove, ⟨fun e he => Expr.and_apart.mpr ⟨hinner e he, houter e he⟩, hbelow⟩, ?_⟩
      intro e he
      obtain ⟨heouter, heinner, hebelow⟩ := hacross e he
      exact List.forall_mem_cons.mpr ⟨Expr.apart_and.mpr ⟨heinner, heouter⟩, hebelow⟩
    · rw [List.forall_mem_append, List.forall_mem_cons]
      exact ⟨hadjustedAbove, Expr.adjustUnder_connective rfl hadjustedInner hadjustedOuter,
        hadjustedBelow⟩

/-- **Lifting leaves an adjusted plan adjusted** if no two of its filters have a conjunct in
common. -/
theorem adjust_sweepUpTo (hdistinct : p.DistinctFilters)
    (hadjusted : ∀ e ∈ p.filters, e.adjustUnder false = e) (limit : ℕ) :
    (sweepUpTo limit p).adjust .host = sweepUpTo limit p := by
  have hsteps := sweepUpTo_steps limit p
  generalize sweepUpTo limit p = swept at hsteps
  suffices h : swept.DistinctFilters ∧ ∀ e ∈ swept.filters, e.adjustUnder false = e from
    adjust_host_eq_self h.2
  induction hsteps with
  | refl => exact ⟨hdistinct, hadjusted⟩
  | tail _ hstep ih => exact adjusted_of_step hstep ih.1 ih.2

/-- The filters of an adjusted plan stay adjusted when it is resolved: the predicates of types
compare nothing. -/
theorem adjusted_of_resolve (h : (p.adjust .host).resolve model shaping = .ok q) :
    ∀ e ∈ q.filters, e.adjustUnder false = e := by
  refine filters_of_resolveUnder (fun name e he => ?_) (adjusted_of_mem_filters_adjust p) h
  exact Expr.adjustUnder_of_comparisonFree (Model.comparisonFree_subtreePredicate he) false

end

end Plan

end EntityQuery
