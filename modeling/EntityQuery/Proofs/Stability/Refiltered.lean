/-
# Plans that differ in their filters

Whether a rule applies to a plan, whether the plan is in some order and whether its cuts stand on
their sorts depend on its operators and on its sort keys, never on what its filters say.
`Plan.Refiltered` relates plans that differ in the predicates of their filters only, and the checks
and rules are shown not to tell them apart.
-/
import EntityQuery.Proofs.Ordering.Canonical
import EntityQuery.Proofs.TypeFilter.Stored

namespace EntityQuery.Plan

/-- Plans that differ in the predicates of their filters only; these are related by `R`. -/
inductive Refiltered (R : Expr → Expr → Prop) : Plan → Plan → Prop where
  | source (relation : String) : Refiltered R (source relation) (source relation)
  | filter {e e' : Expr} {p q : Plan} (he : R e e') (h : Refiltered R p q) :
      Refiltered R (filter e p) (filter e' q)
  | project (columns : List OutputColumn) {p q : Plan} (h : Refiltered R p q) :
      Refiltered R (project columns p) (project columns q)
  | sort (keys : List SortKey) {p q : Plan} (h : Refiltered R p q) :
      Refiltered R (sort keys p) (sort keys q)
  | skip (count : UInt64) {p q : Plan} (h : Refiltered R p q) :
      Refiltered R (skip count p) (skip count q)
  | take (count : UInt64) {p q : Plan} (h : Refiltered R p q) :
      Refiltered R (take count p) (take count q)
  | ofType (subtype : String) {p q : Plan} (h : Refiltered R p q) :
      Refiltered R (ofType subtype p) (ofType subtype q)

/-- An adjusted plan is the plan with other filters. -/
theorem refiltered_adjust (mode : NullMode) (plan : Plan) :
    Refiltered (fun e e' => e' = e.adjust mode) plan (plan.adjust mode) := by
  induction plan with
  | source relation => exact .source relation
  | filter e p ih => exact .filter rfl ih
  | project columns p ih => exact .project columns ih
  | sort keys p ih => exact .sort keys ih
  | skip count p ih => exact .skip count ih
  | take count p ih => exact .take count ih
  | ofType subtype p ih => exact .ofType subtype ih

namespace Refiltered

variable {R S : Expr → Expr → Prop} {p q : Plan}

theorem refl (hR : ∀ e, R e e) (plan : Plan) : Refiltered R plan plan := by
  induction plan with
  | source relation => exact .source relation
  | filter e p ih => exact .filter (hR e) ih
  | project columns p ih => exact .project columns ih
  | sort keys p ih => exact .sort keys ih
  | skip count p ih => exact .skip count ih
  | take count p ih => exact .take count ih
  | ofType subtype p ih => exact .ofType subtype ih

/-! ## What does not depend on filters -/

/-- Other filters ask for no types. -/
theorem typeFree_eq (h : Refiltered R p q) : q.typeFree = p.typeFree := by
  induction h with
  | source | ofType => rfl
  | filter _ _ ih | project _ _ ih | sort _ _ ih | skip _ _ ih | take _ _ ih => exact ih

/-- Filters do not order anything. -/
theorem orderSource_eq (h : Refiltered R p q) : q.orderSource = p.orderSource := by
  induction h with
  | source | sort => rfl
  | filter _ _ ih | project _ _ ih | skip _ _ ih | take _ _ ih | ofType _ _ ih => exact ih

/-- The keys of a cut stand at most two operators below it. -/
theorem truncationKeys_eq (h : Refiltered R p q) : q.truncationKeys = p.truncationKeys := by
  cases h with
  | source | filter | project | sort | ofType => rfl
  | skip count h => cases h <;> rfl
  | take count h =>
    cases h with
    | source | filter | project | sort | take | ofType => rfl
    | skip offset h => cases h <;> rfl

/-- Whether a plan is ordered does not depend on its filters. -/
theorem checkOrdered_eq (h : Refiltered R p q) : q.checkOrdered = p.checkOrdered := by
  induction h with
  | source => rfl
  | filter _ _ ih | project _ _ ih | sort _ _ ih | ofType _ _ ih => exact ih
  | skip count h ih | take count h ih => rw [checkOrdered, checkOrdered, h.orderSource_eq, ih]

/-- Nor does it matter for canonical form what filters say. -/
theorem checkCanonical_eq (h : Refiltered R p q) : q.checkCanonical = p.checkCanonical := by
  have hkind : ∀ {p q : Plan}, Refiltered R p q → q.kind = p.kind ∧ q.isSort = p.isSort :=
    fun h => by cases h <;> exact ⟨rfl, rfl⟩
  induction h with
  | source => rfl
  | filter _ _ ih | project _ _ ih | sort _ _ ih | ofType _ _ ih => exact ih
  | skip count h ih => rw [checkCanonical, checkCanonical, (hkind h).1, (hkind h).2, ih]
  | take count h ih =>
    rw [checkCanonical, checkCanonical, (h.take count).truncationKeys_eq, (hkind h).1, ih]

/-! A rule applies or not by the operators it is about. -/

/-- Whether a rule applies at a filter does not depend on what the filters say. -/
theorem liftOverFilter_isNone (h : Refiltered R p q) (e e' : Expr) :
    (liftOverFilter? e' q).isNone = (liftOverFilter? e p).isNone := by
  cases h <;> rfl

theorem liftOverType_isNone (h : Refiltered R p q) (subtype : String) :
    (liftOverType? subtype q).isNone = (liftOverType? subtype p).isNone := by
  cases h <;> rfl

theorem liftOverProject_isNone (h : Refiltered R p q) (columns : List OutputColumn) :
    (liftOverProject? columns q).isNone = (liftOverProject? columns p).isNone := by
  cases h <;> rfl

theorem liftOverSort_isNone (h : Refiltered R p q) (keys : List SortKey) :
    (liftOverSort? keys q).isNone = (liftOverSort? keys p).isNone := by
  cases h <;> rfl

theorem liftOverSkip_isNone (h : Refiltered R p q) (count : UInt64) :
    (liftOverSkip? count q).isNone = (liftOverSkip? count p).isNone := by
  cases h <;> rfl

theorem liftOverTake_isNone (h : Refiltered R p q) (count : UInt64) :
    (liftOverTake? count q).isNone = (liftOverTake? count p).isNone := by
  cases h <;> rfl

/-- **Refiltering keeps a plan settled.** -/
theorem settled {consumer : Consumer} (h : Refiltered R p q) (hp : Settled consumer p) :
    Settled consumer q := by
  induction h generalizing consumer with
  | source => exact hp
  | @filter e e' _ _ _ h ih =>
    rw [settled_filter, ← Option.isNone_iff_eq_none] at hp ⊢
    exact ⟨ih hp.1, (h.liftOverFilter_isNone e e').trans hp.2⟩
  | ofType subtype h ih =>
    rw [settled_ofType, ← Option.isNone_iff_eq_none] at hp ⊢
    exact ⟨ih hp.1, (h.liftOverType_isNone subtype).trans hp.2⟩
  | project columns h ih =>
    rw [settled_project, ← Option.isNone_iff_eq_none] at hp ⊢
    exact ⟨ih hp.1, (h.liftOverProject_isNone columns).trans hp.2⟩
  | sort keys h ih =>
    rw [settled_sort, ← Option.isNone_iff_eq_none] at hp ⊢
    exact ⟨ih hp.1, (h.liftOverSort_isNone keys).trans hp.2⟩
  | skip count h ih =>
    rw [settled_skip, ← Option.isNone_iff_eq_none] at hp ⊢
    refine ⟨ih hp.1, (h.liftOverSkip_isNone count).trans hp.2.1, ?_⟩
    rw [(h.skip count).truncationKeys_eq]
    exact hp.2.2
  | take count h ih =>
    rw [settled_take, ← Option.isNone_iff_eq_none] at hp ⊢
    refine ⟨ih hp.1, (h.liftOverTake_isNone count).trans hp.2.1, ?_⟩
    rw [(h.take count).truncationKeys_eq]
    exact hp.2.2

end Refiltered

end EntityQuery.Plan
