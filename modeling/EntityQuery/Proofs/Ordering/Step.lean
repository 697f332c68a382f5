/-
# Steps of lifting

A sweep applies many rules at once.  To reason about it, this file takes it apart into single
steps: `Plan.Rule` lists what may happen to an operator and its input, and `Plan.Step` closes the
rules under operators above, together with the restating of a windowed stage's keys, which depends
on the consumer of the plan.

* `Plan.sweep_reaches`: a sweep is a chain of steps, empty exactly when no rule applied;
* `Plan.sweepUpTo_steps`: so is every bounded run of sweeps;
* `Plan.lift_eq_ok_iff`: when lifting succeeds, and with what.

Whatever a single step keeps is thereby kept by lifting.
-/
import EntityQuery.Ordering.Lift
import Mathlib.Data.Nat.Notation
import Mathlib.Logic.Relation

namespace EntityQuery.Plan

open Relation

/-! ## Single steps -/

/-- What lifting may do to an operator and its input, whatever stands above. -/
inductive Rule : Plan → Plan → Prop where
  | fuseFilters (outer inner : Expr) (p : Plan) :
      Rule (filter outer (filter inner p)) (filter (fuse inner outer) p)
  | sortOverFilter (predicate : Expr) (keys : List SortKey) (p : Plan) :
      Rule (filter predicate (sort keys p)) (sort keys (filter predicate p))
  | sortOverType (subtype : String) (keys : List SortKey) (p : Plan) :
      Rule (ofType subtype (sort keys p)) (sort keys (ofType subtype p))
  | mergeProjections (outer inner : List OutputColumn) (p : Plan) :
      Rule (project outer (project inner p)) (project (compose outer inner) p)
  | sortOverProjection (columns : List OutputColumn) (keys : List SortKey) (p : Plan) :
      Rule (project columns (sort keys p))
        (sort (carryKeys columns keys).2 (project (carryKeys columns keys).1 p))
  | projectionBelowSkip (columns : List OutputColumn) (count : UInt64) (p : Plan) :
      Rule (project columns (skip count p)) (skip count (project columns p))
  | projectionBelowTake (columns : List OutputColumn) (count : UInt64) (p : Plan) :
      Rule (project columns (take count p)) (take count (project columns p))
  | dropShadowedSort (outer inner : List SortKey) (p : Plan) :
      Rule (sort outer (sort inner p)) (sort outer p)
  | mergeSkips (outer inner : UInt64) (p : Plan) :
      Rule (skip outer (skip inner p)) (skip (saturatingAdd inner outer) p)
  | skipBelowTake (count limit : UInt64) (p : Plan) :
      Rule (skip count (take limit p)) (take (saturatingSub limit count) (skip count p))
  | mergeTakes (outer inner : UInt64) (p : Plan) :
      Rule (take outer (take inner p)) (take (min inner outer) p)

/-- One step of lifting under a consumer: a rule, or the keys of a windowed stage restated above it
where their order is needed, at the top or under further operators. -/
inductive Step : Consumer → Plan → Plan → Prop where
  | rule {consumer : Consumer} {p q : Plan} (h : Rule p q) : Step consumer p q
  | restate {p : Plan} {keys : List SortKey} (h : p.truncationKeys = some keys) :
      Step .needsOrder p (sort keys p)
  | filter {consumer : Consumer} (predicate : Expr) {p q : Plan} (h : Step consumer.through p q) :
      Step consumer (filter predicate p) (filter predicate q)
  | ofType {consumer : Consumer} (subtype : String) {p q : Plan} (h : Step consumer.through p q) :
      Step consumer (ofType subtype p) (ofType subtype q)
  | project {consumer : Consumer} (columns : List OutputColumn) {p q : Plan}
      (h : Step consumer p q) : Step consumer (project columns p) (project columns q)
  | sort {consumer : Consumer} (keys : List SortKey) {p q : Plan} (h : Step .ordered p q) :
      Step consumer (sort keys p) (sort keys q)
  | skip {consumer : Consumer} (count : UInt64) {p q : Plan} (h : Step .window p q) :
      Step consumer (skip count p) (skip count q)
  | take {consumer : Consumer} (count : UInt64) {p q : Plan} (h : Step .window p q) :
      Step consumer (take count p) (take count q)

/-! ## The replacements are rules -/

/-- What is lifted over a filter is lifted by a rule. -/
theorem rule_of_liftOverFilter {predicate : Expr} {p q : Plan}
    (h : liftOverFilter? predicate p = some q) : Rule (filter predicate p) q := by
  unfold liftOverFilter? at h
  split at h
  · obtain rfl := Option.some.inj h
    exact Rule.fuseFilters _ _ _
  · obtain rfl := Option.some.inj h
    exact Rule.sortOverFilter _ _ _
  · cases h

theorem rule_of_liftOverType {subtype : String} {p q : Plan}
    (h : liftOverType? subtype p = some q) : Rule (ofType subtype p) q := by
  unfold liftOverType? at h
  split at h
  · obtain rfl := Option.some.inj h
    exact Rule.sortOverType _ _ _
  · cases h

theorem rule_of_liftOverProject {columns : List OutputColumn} {p q : Plan}
    (h : liftOverProject? columns p = some q) : Rule (project columns p) q := by
  unfold liftOverProject? at h
  split at h
  · obtain rfl := Option.some.inj h
    exact Rule.mergeProjections _ _ _
  · obtain rfl := Option.some.inj h
    exact Rule.sortOverProjection _ _ _
  · obtain rfl := Option.some.inj h
    exact Rule.projectionBelowSkip _ _ _
  · obtain rfl := Option.some.inj h
    exact Rule.projectionBelowTake _ _ _
  · cases h

theorem rule_of_liftOverSort {keys : List SortKey} {p q : Plan}
    (h : liftOverSort? keys p = some q) : Rule (sort keys p) q := by
  unfold liftOverSort? at h
  split at h
  · obtain rfl := Option.some.inj h
    exact Rule.dropShadowedSort _ _ _
  · cases h

theorem rule_of_liftOverSkip {count : UInt64} {p q : Plan}
    (h : liftOverSkip? count p = some q) : Rule (skip count p) q := by
  unfold liftOverSkip? at h
  split at h
  · obtain rfl := Option.some.inj h
    exact Rule.mergeSkips _ _ _
  · obtain rfl := Option.some.inj h
    exact Rule.skipBelowTake _ _ _
  · cases h

theorem rule_of_liftOverTake {count : UInt64} {p q : Plan}
    (h : liftOverTake? count p = some q) : Rule (take count p) q := by
  unfold liftOverTake? at h
  split at h
  · obtain rfl := Option.some.inj h
    exact Rule.mergeTakes _ _ _
  · cases h

/-! ## Sweeps -/

/-- What a sweep of `plan` returned is reached by steps: by at least one if a rule applied, else by
none. -/
def Reaches (consumer : Consumer) (plan : Plan) : Plan × Bool → Prop
  | (swept, true) => TransGen (Step consumer) plan swept
  | (swept, false) => swept = plan

section Reaches

variable {consumer : Consumer} {plan : Plan}

/-- Steps below an operator are steps of the whole plan. -/
theorem Reaches.under {inner : Consumer} {f : Plan → Plan} {swept : Plan × Bool}
    (hf : ∀ {p q}, Step inner p q → Step consumer (f p) (f q)) (h : Reaches inner plan swept) :
    Reaches consumer (f plan) (f swept.1, swept.2) := by
  obtain ⟨q, _ | _⟩ := swept
  · exact congrArg f h
  · exact TransGen.lift f (fun _ _ => hf) _ _ h

/-- A rule at the top is one more step. -/
theorem Reaches.settle {replacement : Option Plan} {swept : Plan × Bool}
    (h : Reaches consumer plan swept) (hrule : ∀ q, replacement = some q → Rule swept.1 q) :
    Reaches consumer plan (settle replacement swept.1 swept.2) := by
  obtain ⟨p, applied⟩ := swept
  cases replacement with
  | none => exact h
  | some q =>
    have hstep : Step consumer p q := Step.rule (hrule q rfl)
    cases applied with
    | false =>
      obtain rfl : p = plan := h
      exact TransGen.single hstep
    | true => exact TransGen.tail h hstep

/-- Restated keys are one more step, where there are any. -/
theorem Reaches.restate {swept : Plan × Bool} (h : Reaches consumer plan swept) :
    Reaches consumer plan (restate consumer swept) := by
  obtain ⟨p, applied⟩ := swept
  simp only [Plan.restate]
  split
  next keys hkeys =>
    have hstep : Step .needsOrder p (Plan.sort keys p) := Step.restate hkeys
    cases applied with
    | false =>
      obtain rfl : p = plan := h
      exact TransGen.single hstep
    | true => exact TransGen.tail h hstep
  next => exact h

end Reaches

/-- **A sweep is a chain of steps**, and an empty one exactly when no rule applied. -/
theorem sweep_reaches (consumer : Consumer) (plan : Plan) :
    Reaches consumer plan (plan.sweep consumer) := by
  induction plan generalizing consumer with
  | source relation => exact rfl
  | filter predicate p ih =>
    exact ((ih consumer.through).under (Step.filter predicate)).settle
      (fun _ => rule_of_liftOverFilter)
  | ofType subtype p ih =>
    exact ((ih consumer.through).under (Step.ofType subtype)).settle (fun _ => rule_of_liftOverType)
  | project columns p ih =>
    exact ((ih consumer).under (Step.project columns)).settle (fun _ => rule_of_liftOverProject)
  | sort keys p ih =>
    exact ((ih .ordered).under (Step.sort keys)).settle (fun _ => rule_of_liftOverSort)
  | skip count p ih =>
    exact (((ih .window).under (Step.skip count)).settle
      (fun _ => rule_of_liftOverSkip)).restate
  | take count p ih =>
    exact (((ih .window).under (Step.take count)).settle
      (fun _ => rule_of_liftOverTake)).restate

/-- Every bounded run of sweeps is a chain of steps. -/
theorem sweepUpTo_steps (limit : ℕ) (plan : Plan) :
    ReflTransGen (Step .needsOrder) plan (sweepUpTo limit plan) := by
  induction limit generalizing plan with
  | zero => exact ReflTransGen.refl
  | succ limit ih =>
    have hreach := sweep_reaches .needsOrder plan
    rw [sweepUpTo]
    split
    next swept heq =>
      rw [heq] at hreach
      exact hreach.to_reflTransGen.trans (ih swept)
    next swept heq =>
      rw [heq] at hreach
      obtain rfl : swept = plan := hreach
      exact ReflTransGen.refl

/-- Lifting succeeds on an ordered plan that its sweeps make canonical. -/
theorem lift_eq_ok_iff {limit : ℕ} {plan lifted : Plan} :
    plan.lift limit = .ok lifted ↔
      plan.checkOrdered = .ok () ∧ lifted = sweepUpTo limit plan ∧
        lifted.checkCanonical = .ok () := by
  unfold lift
  cases hordered : plan.checkOrdered with
  | error fault => simp [bind, Except.bind]
  | ok _ =>
    cases hcanonical : (sweepUpTo limit plan).checkCanonical with
    | error fault =>
      simp only [bind, Except.bind, hcanonical, reduceCtorEq, true_and, false_iff, not_and]
      rintro rfl
      rw [hcanonical]
      simp
    | ok _ =>
      simp only [bind, Except.bind, hcanonical, pure, Except.pure, Except.ok.injEq, true_and]
      constructor
      · rintro rfl
        exact ⟨rfl, hcanonical⟩
      · rintro ⟨rfl, -⟩
        rfl

end EntityQuery.Plan
