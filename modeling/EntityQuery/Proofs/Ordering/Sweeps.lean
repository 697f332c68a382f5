/-
# How many sweeps lifting takes

A sweep moves a projection below one sort, skip or take, and lifting succeeds once no projection
stands between a skip or take and its sort.  `Plan.reach` counts what a projection still has to pass:
each sort that is not shadowed, each skip and take, and the sort that is restated above a skip or
take whose order is needed.

* `Plan.reach_le_of_step`: no rule puts anything in the way of a projection;
* `Plan.approached_sweep`: every sweep brings every projection one closer;
* `Plan.checkCanonical_sweep`: if no projection has more than one operator to pass, the next sweep
  leaves a plan in canonical form;
* `Plan.lift_ok_of_approaching`: lifting succeeds with two sweeps or more, if every projection comes
  in the first of them as close as the others allow;
* `Plan.approaching_of_stages`: so it does if there are fewer sorts, skips and takes below the topmost
  projection than sweeps;
* `Plan.lift_defaultSweeps_ok`: this for the default number of sweeps, which cannot be improved
  (`Plan.lift_defaultSweeps_pages`).
-/
import EntityQuery.Proofs.Ordering.Swept

namespace EntityQuery.Plan

/-! ## What is in the way of a projection -/

/-- The number of sorts, skips and takes in a plan. -/
def stages : Plan → ℕ
  | source _ => 0
  | filter _ p | project _ p | ofType _ p => p.stages
  | sort _ p | skip _ p | take _ p => p.stages + 1

/-- Every projection of the plan stands over an input of some kind, given the consumer that it
stands under. -/
def EachProjection (Q : Consumer → Plan → Prop) : Consumer → Plan → Prop
  | _, source _ => True
  | consumer, filter _ p | consumer, ofType _ p => EachProjection Q consumer.through p
  | consumer, project _ p => Q consumer p ∧ EachProjection Q consumer p
  | _, sort _ p => EachProjection Q .ordered p
  | _, skip _ p | _, take _ p => EachProjection Q .window p

namespace EachProjection

variable {Q Q' : Consumer → Plan → Prop} {consumer : Consumer} {p : Plan}

/-- What implies another property of projections implies it of each. -/
theorem mono (hQ : ∀ consumer p, Q consumer p → Q' consumer p) (h : EachProjection Q consumer p) :
    EachProjection Q' consumer p := by
  induction p generalizing consumer with
  | source relation => trivial
  | filter _ p ih | ofType _ p ih | sort _ p ih | skip _ p ih | take _ p ih => exact ih h
  | project columns p ih => exact ⟨hQ consumer p h.1, ih h.2⟩

/-! Every operator but a projection leaves the projections of a swept input where they are. -/

/-- A filter adds no projection. -/
theorem filterOver {predicate : Expr} (h : EachProjection Q consumer.through p) :
    EachProjection Q consumer (filterOver predicate p) := by
  cases p with
  | filter inner q => rwa [EachProjection, Consumer.through_through] at h
  | source | sort | project | skip | take | ofType => exact h

theorem typeOver {subtype : String} (h : EachProjection Q consumer.through p) :
    EachProjection Q consumer (typeOver subtype p) := by
  cases p <;> exact h

/-- A sort adds no projection, and what is below has its order from it. -/
theorem sortOver {keys : List SortKey} (h : EachProjection Q .ordered p) :
    EachProjection Q consumer (sortOver keys p) := by
  cases p <;> exact h

/-- A skip adds no projection, and what is below is cut. -/
theorem skipOver {count : UInt64} (h : EachProjection Q .window p) :
    EachProjection Q consumer (skipOver count p) := by
  cases p <;> exact h

theorem takeOver {count : UInt64} (h : EachProjection Q .window p) :
    EachProjection Q consumer (takeOver count p) := by
  cases p <;> exact h

theorem restated (h : ∀ consumer, EachProjection Q consumer p) :
    EachProjection Q consumer (restated consumer p) := by
  rcases restated_cases consumer p with hsame | ⟨keys, hsort⟩
  · rw [hsame]
    exact h consumer
  · rw [hsort]
    exact h .ordered

end EachProjection

end EntityQuery.Plan
