/-
# The columns of the outermost statement

What a caller gets to see is settled by the plan alone: the columns of its topmost projection or
type filter, or else those of the entity set (`Plan.entityColumns`).  On the way to a statement
hidden columns are added, projections are merged and moved below cuts, and statements are wrapped;
the visible names and their order stay what they were.

* `Plan.visibleNames_of_step`, `Plan.visibleNames_of_resolve`: lifting and resolving change no
  visible name, whether or not the columns that a plan reads are there;
* `Emission.Emits.rowNumber_eq`: the outermost statement has no row number;
* `Plan.compile_declared_columns`: the select list of a compiled plan has the declared columns.
-/
import EntityQuery.Proofs.Compiler
import EntityQuery.Proofs.Select.Form

namespace EntityQuery

open Relation

namespace Plan

/-! ## Lifting -/

/-- No rule changes a visible name of the columns that a plan produces. -/
theorem visibleNames_of_rule {p q : Plan} (h : Rule p q) (store : Store) :
    visibleNames (q.outputs store) = visibleNames (p.outputs store) := by
  cases h with
  | mergeProjections outer inner p =>
    exact visibleNames_eq_of_headers (headers_map_substitute _ outer)
  | sortOverProjection columns keys p => exact visibleNames_carryKeys columns keys
  | fuseFilters | sortOverFilter | sortOverType | projectionBelowSkip | projectionBelowTake
  | dropShadowedSort | mergeSkips | skipBelowTake | mergeTakes => rfl

theorem visibleNames_of_step {consumer : Consumer} {p q : Plan} (h : Step consumer p q)
    (store : Store) : visibleNames (q.outputs store) = visibleNames (p.outputs store) := by
  induction h with
  | rule h => exact visibleNames_of_rule h store
  | restate h => rfl
  | project columns _ _ => rfl
  | filter _ _ ih | ofType _ _ ih | sort _ _ ih | skip _ _ ih | take _ _ ih => exact ih

/-- **Sweeps change no visible name**, wherever they stop. -/
theorem visibleNames_sweepUpTo (limit : ℕ) (plan : Plan) (store : Store) :
    visibleNames ((sweepUpTo limit plan).outputs store) = visibleNames (plan.outputs store) := by
  have hsteps := sweepUpTo_steps limit plan
  generalize sweepUpTo limit plan = swept at hsteps
  induction hsteps with
  | refl => rfl
  | tail _ hlast ih => exact (visibleNames_of_step hlast store).trans ih

/-! ## Resolving -/

/-- **A resolved plan produces what the plan shows a caller.**  Type filters below another one
project nothing, so that only the topmost counts. -/
theorem visibleNames_of_resolve {model : Model} {shaping : Shaping} {plan resolved : Plan}
    (h : plan.resolve model shaping = .ok resolved) (engine : Engine)
    (tables : String → List Row) :
    visibleNames (resolved.outputs (model.tableStore engine tables)) =
      visibleNames (plan.entityColumns model) := by
  unfold resolve at h
  induction plan generalizing resolved with
  | source relation =>
    obtain ⟨set, -, h⟩ := exists_ok_of_bind_eq_ok h
    split at h
    · obtain rfl := Except.ok.inj h
      rfl
    · obtain rfl := Except.ok.inj h
      rfl
  | filter _ p ih | sort _ p ih | skip _ p ih | take _ p ih =>
    obtain ⟨input, hinput, rfl⟩ := exists_ok_of_bind_pure_eq_ok h
    have hvisible := ih hinput
    exact hvisible
  | project columns p ih =>
    obtain ⟨input, -, rfl⟩ := exists_ok_of_bind_pure_eq_ok h
    rfl
  | ofType subtype p ih =>
    obtain ⟨set, e, input, -, -, -, rfl⟩ := resolveUnder_ofType_eq_ok h
    exact visibleNames_eq_of_headers Model.headers_shape

end Plan

/-! ## Emitted statements -/

/-- The rows of an emitted statement are not numbered: a stage that numbers its rows is wrapped. -/
theorem Emission.Emits.rowNumber_eq {model : Model} {plan : Plan} {s : Select}
    (h : Emits model plan s) : s.clauses.rowNumber = none := by
  have hopened : ∀ {s t : Select}, s.clauses.rowNumber = none → Opened s t →
      t.clauses.rowNumber = none := by
    intro s t hs ht
    cases ht with
    | itself => exact hs
    | around kind s item => rfl
  induction h with
  | source hset item => rfl
  | filter _ _ ht ih | project _ _ ht ih | sort _ _ ht ih | take _ _ _ ht ih =>
    rw [Select.clauses_map]
    exact hopened ih ht
  | sorted _ _ ih => exact ih
  | skip _ _ _ ht item ih =>
    rw [Select.clauses_map]
    rfl
  | takeSkip _ _ ih =>
    rw [Select.clauses_map]
    exact ih

/-! ## Main statement -/

namespace Plan

/-- **The select list is the one that was declared.**  However plan and model are made and wherever
the sweeps stop, the text of a compiled plan is that of a statement whose visible columns have the
names of those that the plan shows a caller, in the same order; and an outermost select list is
written with an entry for each visible column and nothing else. -/
theorem compile_declared_columns (model : Model) (options : Options) (plan : Plan) (sql : String)
    (hcompile : plan.compile model options = .ok sql) :
    ∃ prepared statement, plan.prepare model options = .ok prepared ∧
      prepared.statement model = .ok statement ∧ sql = statement.sql ∧
      visibleNames statement.clauses.columns = visibleNames (plan.entityColumns model) ∧
      statement.clauses.sqlColumns 0 statement.item =
        (statement.clauses.columns.filter (!·.hidden)).map (·.sql statement.item) := by
  obtain ⟨prepared, hprepare, -⟩ := exists_ok_of_bind_eq_ok hcompile
  obtain ⟨statement, hstatement, hsql⟩ := compile_eq_ok hprepare hcompile
  have hemits := emits_of_statement hstatement
  refine ⟨prepared, statement, hprepare, hstatement, hsql, ?_, ?_⟩
  · obtain ⟨resolved, hresolve, hlift⟩ := prepare_eq_ok hprepare
    obtain ⟨-, rfl, -⟩ := lift_eq_ok_iff.mp hlift
    -- what the tables hold does not matter here, so they may be empty
    rw [visibleNames_eq_of_headers (hemits.headers_eq Engine.standard fun _ => []),
      visibleNames_sweepUpTo, visibleNames_of_resolve hresolve, entityColumns_adjust]
  · simp [Clauses.sqlColumns, hemits.rowNumber_eq]

/-- The numbers of the cats with the most lives.  The projection stands on a cut, hides a column,
repeats a name and reads a column that is not there. -/
def catsByLives : Plan :=
  filter (.isNotNull (.column "Id")) (project
    [.passThrough "Id", { name := "Lives", expr := .column "Lives", hidden := true },
      { name := "Id", expr := .column "Nowhere" }]
    (skip 1 (take 5 (sort [⟨.column "Lives", .desc⟩] (ofType "Cat" (source "Animals"))))))

/-- One sweep leaves the projection above the cut. -/
theorem compile_declared_columns_catsByLives :
    ∃ sql, catsByLives.compile animalsModel { sweeps := 1 } = .ok sql ∧
      visibleNames (catsByLives.entityColumns animalsModel) = ["Id", "Id"] ∧
      ∃ prepared statement, catsByLives.prepare animalsModel { sweeps := 1 } = .ok prepared ∧
        prepared.statement animalsModel = .ok statement ∧ sql = statement.sql ∧
        visibleNames statement.clauses.columns =
          visibleNames (catsByLives.entityColumns animalsModel) ∧
        statement.clauses.sqlColumns 0 statement.item =
          (statement.clauses.columns.filter (!·.hidden)).map (·.sql statement.item) :=
  ⟨_, rfl, rfl, compile_declared_columns animalsModel { sweeps := 1 } catsByLives _ rfl⟩

end Plan

end EntityQuery
