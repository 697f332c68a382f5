/-
# The order of the outermost statement

A caller's order is that of the nearest sort of the plan.  It is seen in the answer only if the
outermost statement has an ORDER BY clause, since a derived table hands on no order.  Lifting that
stops early may leave sorts under filters; but as soon as it sweeps at all, its own last check
leaves no plan whose order would be lost:

* `Plan.exists_last_sweep`: sweeping ends with a whole sweep;
* `Plan.isSort_lift`: hence a lifted plan in some order is a sort;
* `Plan.directions_of_step`: it has a key for each key of the caller, in the same direction;
* `Emission.Emits.orderBy_eq`: the statement of a sort orders by its keys.

Without a sweep the order is lost in silence (`Plan.statement_lift_order_unswept`).
-/
import EntityQuery.Proofs.Ordering.Carry
import EntityQuery.Proofs.Ordering.Swept
import EntityQuery.Proofs.Select.Form

namespace EntityQuery

open Relation

namespace Plan

/-! ## Directions -/

/-- The directions of the keys that order the rows of a plan, if it is in some order. -/
def directions (plan : Plan) : Option (List Direction) :=
  plan.orderSource.map fun keys => keys.map (·.direction)

/-- No step changes the number of the caller's keys or their directions. -/
theorem directions_of_step {consumer : Consumer} {p q : Plan} (h : Step consumer p q) :
    q.directions = p.directions := by
  induction h with
  | rule h =>
    cases h with
    | sortOverProjection columns keys p => exact congrArg some (directions_carryKeys columns keys)
    | fuseFilters | sortOverFilter | sortOverType | mergeProjections | projectionBelowSkip
    | projectionBelowTake | dropShadowedSort | mergeSkips | skipBelowTake | mergeTakes => rfl
  | restate h =>
    rw [directions, directions, orderSource_of_truncationKeys h]
    rfl
  | filter _ _ ih | ofType _ _ ih | project _ _ ih | skip _ _ ih | take _ _ ih => exact ih
  | sort => rfl

theorem directions_of_steps {consumer : Consumer} {p q : Plan}
    (h : ReflTransGen (Step consumer) p q) : q.directions = p.directions := by
  induction h with
  | refl => rfl
  | tail _ hlast ih => exact (directions_of_step hlast).trans ih

/-! ## The last sweep -/

/-- Sweeping at least once ends with a whole sweep. -/
theorem exists_last_sweep {limit : ℕ} (hlimit : 0 < limit) (plan : Plan) :
    ∃ before, ReflTransGen (Step .needsOrder) plan before ∧
      sweepUpTo limit plan = (before.sweep .needsOrder).1 := by
  induction limit generalizing plan with
  | zero => cases hlimit
  | succ limit ih =>
    have hreach := sweep_reaches .needsOrder plan
    rcases hsweep : plan.sweep .needsOrder with ⟨swept, _ | _⟩
    · exact ⟨plan, .refl, by simp only [sweepUpTo, hsweep]⟩
    · rw [hsweep] at hreach
      simp only [sweepUpTo, hsweep]
      cases limit with
      | zero => exact ⟨plan, .refl, by rw [hsweep]; rfl⟩
      | succ limit =>
        obtain ⟨before, hsteps, hlast⟩ := ih (Nat.succ_pos limit) swept
        exact ⟨before, (TransGen.to_reflTransGen hreach).trans hsteps, hlast⟩

/-- **A lifted plan in some order is a sort**, if it was swept at all or was one before. -/
theorem isSort_lift {limit : ℕ} {plan lifted : Plan}
    (hlimit : 0 < limit ∨ plan.isSort = true) (hsome : plan.directions.isSome)
    (hlift : plan.lift limit = .ok lifted) : lifted.isSort = true := by
  obtain ⟨-, rfl, hcanonical⟩ := lift_eq_ok_iff.mp hlift
  cases limit with
  | zero => exact hlimit.resolve_left (Nat.lt_irrefl 0)
  | succ limit =>
    obtain ⟨before, hsteps, hlast⟩ := exists_last_sweep (Nat.succ_pos limit) plan
    rw [hlast] at hcanonical ⊢
    have hbefore : before.directions.isSome := by rwa [directions_of_steps hsteps]
    rw [directions, Option.isSome_map] at hbefore
    exact isSort_sweep hbefore hcanonical

end Plan

/-! ## Ordered statements -/

/-- The statement of a sort orders by its keys. -/
theorem Emission.Emits.orderBy_eq {model : Model} {keys : List SortKey} {p : Plan} {s : Select}
    (h : Emits model (.sort keys p) s) : s.clauses.orderBy = s.clauses.inlineKeys keys := by
  cases h with
  | sort keys hp ht =>
    rw [Select.clauses_map]
    rfl
  | sorted hp horder => exact horder

/-! ## Main statement -/

namespace Plan

/-- **The caller's order is not lost.**  Lifting that sweeps at least once, however early it stops,
returns a plan whose statement has an ORDER BY entry for each key of the caller's order, in the same
direction; so has lifting without a sweep, if the outermost operator is a sort. -/
theorem statement_lift_order (model : Model) (counters : AliasCounters) (limit : ℕ)
    (plan lifted : Plan) (keys : List SortKey) (statement : Select)
    (hlimit : 0 < limit ∨ plan.isSort = true) (hkeys : plan.orderSource = some keys)
    (hlift : plan.lift limit = .ok lifted)
    (hstatement : (lifted.statementFrom model counters).1 = .ok statement) :
    statement.clauses.orderBy.map (·.direction) = keys.map (·.direction) ∧
      (keys ≠ [] → statement.clauses.orderBy ≠ []) := by
  have hdirections : plan.directions = some (keys.map (·.direction)) := by
    rw [directions, hkeys]
    rfl
  have hsort := isSort_lift hlimit (by rw [hdirections]; rfl) hlift
  obtain ⟨new, p, rfl⟩ := exists_eq_sort hsort
  have horder := (emits_of_statementFrom hstatement).orderBy_eq
  -- the sort that is outermost now has the directions of the caller's keys
  obtain ⟨-, hlifted, -⟩ := lift_eq_ok_iff.mp hlift
  have hnew : new.map (·.direction) = keys.map (·.direction) := by
    have hsame := directions_of_steps (sweepUpTo_steps limit plan)
    rw [← hlifted, hdirections] at hsame
    exact Option.some.inj hsame
  have hall : statement.clauses.orderBy.map (·.direction) = keys.map (·.direction) := by
    rw [horder, Clauses.inlineKeys, List.map_map]
    exact hnew
  refine ⟨hall, fun hne hnil => hne ?_⟩
  rw [hnil] at hall
  exact List.map_eq_nil_iff.mp hall.symm

/-- By name from the last to the first, and by number within a name. -/
def nameKeys : List SortKey := [⟨.column "Name", .desc⟩, ⟨.column "Id", .asc⟩]

/-- The named owners among all but one. -/
def laterNames : Plan :=
  filter (.isNotNull (.column "Name")) (skip 1 (sort nameKeys (source "Owners")))

theorem statement_lift_order_laterNames :
    ∃ lifted statement, laterNames.orderSource = some nameKeys ∧ laterNames.lift 1 = .ok lifted ∧
      (lifted.statementFrom ownersModel AliasCounters.initial).1 = .ok statement ∧
      statement.clauses.orderBy.map (·.direction) = nameKeys.map (·.direction) ∧
      (nameKeys ≠ [] → statement.clauses.orderBy ≠ []) :=
  ⟨_, _, rfl, rfl, rfl, statement_lift_order ownersModel AliasCounters.initial 1 laterNames _
    nameKeys _ (Or.inl Nat.one_pos) rfl rfl rfl⟩

/-- Without a sweep a filtered sort passes for lifted, and its statement is in no order. -/
theorem statement_lift_order_unswept :
    let plan := filter (.binary .gt (.column "Id") (.literal (.int 1)))
      (sort [⟨.column "Id", .asc⟩] (source "Owners"))
    ∃ lifted statement, plan.orderSource = some [⟨.column "Id", .asc⟩] ∧
      plan.lift 0 = .ok lifted ∧
      (lifted.statementFrom ownersModel AliasCounters.initial).1 = .ok statement ∧
      statement.clauses.orderBy = [] :=
  ⟨_, _, rfl, rfl, rfl, rfl⟩

end Plan

end EntityQuery
