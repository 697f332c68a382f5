/-
# Models as stores

What a plan is about, given a model and the contents of the tables.  There are two readings:

* `Model.tableStore`: an entity set is its table, row by row;
* `Model.entityStore`: an entity set holds entities.  Where a discriminator tells the types of the
  set apart, a row that is of no type the model has conditions for is no entity of the set.

A row is of a type if it meets all conditions of the type or of one derived from it
(`Model.isOfType`).  What a caller of the compiler asks for is a plan over entities
(`Plan.entityAnswers`), which may read what its input shows (`Plan.EntityScoped`).
-/
import EntityQuery.Model.Basic
import EntityQuery.Proofs.Meaning

namespace EntityQuery

/-- Whether a row meets a condition. -/
def Condition.met (engine : Engine) (row : Row) (condition : Condition) : Bool :=
  match condition.test with
  | .equals v => engine.comparison .native .eq (row condition.column) v = .holds
  | .isNull => (row condition.column).isNull
  | .isNotNull => !(row condition.column).isNull

/-- Whether a type has conditions and a row meets all of them. -/
def EntityType.describes (engine : Engine) (row : Row) (t : EntityType Condition) : Bool :=
  !t.conditions.isEmpty && t.conditions.all (·.met engine row)

namespace Model

/-- Whether a row is of a type or of one derived from it. -/
def isOfType (model : Model) (engine : Engine) (name : String) (row : Row) : Bool :=
  (model.subtree name).any (·.describes engine row)

/-- The columns that tell the rows of a type. -/
def typeReads (model : Model) (name : String) : List String :=
  (model.subtree name).flatMap fun t => t.conditions.map (·.column)

/-- A row is of a type if it meets all conditions of that type or of one derived from it. -/
theorem isOfType_iff {model : Model} {engine : Engine} {name : String} {row : Row} :
    model.isOfType engine name row = true ↔
      ∃ t ∈ model.subtree name,
        t.conditions ≠ [] ∧ ∀ c ∈ t.conditions, c.met engine row = true := by
  simp only [isOfType, EntityType.describes, List.any_eq_true, Bool.and_eq_true, Bool.not_eq_true',
    List.isEmpty_eq_false_iff, List.all_eq_true]

/-- Only the columns that tell a type matter for it. -/
theorem isOfType_congr (model : Model) (engine : Engine) {name : String} {a b : Row}
    (h : ∀ c ∈ model.typeReads name, a c = b c) :
    model.isOfType engine name a = model.isOfType engine name b := by
  rw [Bool.eq_iff_iff, isOfType_iff, isOfType_iff]
  refine exists_congr fun t => and_congr_right fun ht => and_congr_right fun _ =>
    forall₂_congr fun condition hcondition => ?_
  have hread : a condition.column = b condition.column :=
    h _ (List.mem_flatMap.mpr ⟨t, ht, List.mem_map_of_mem hcondition⟩)
  unfold Condition.met
  rw [hread]

/-- The columns of the entity set of a name. -/
def setColumns (model : Model) (relation : String) : List String :=
  match model.relation relation with
  | .ok set => model.relationColumns set
  | .error _ => []

/-- The entity sets of a model as their tables. -/
def tableStore (model : Model) (engine : Engine) (tables : String → List Row) : Store where
  engine
  columns := model.setColumns
  rows relation :=
    match model.relation relation with
    | .ok set => tables set.table
    | .error _ => []
  typeReads := model.typeReads
  isOfType := model.isOfType engine
  isOfType_congr := model.isOfType_congr engine

/-- Whether the rows of an entity set have to be of a known type. -/
def isRestricted (model : Model) (set : EntitySet) : Bool :=
  set.discriminator.isSome && (model.subtree set.root).any (!·.conditions.isEmpty)

/-- The entity sets of a model with their entities, in a null mode. -/
def entityStore (model : Model) (engine : Engine) (tables : String → List Row) (nulls : NullMode) :
    Store :=
  { model.tableStore engine tables with
    nulls
    rows := fun relation =>
      match model.relation relation with
      | .ok set =>
        (tables set.table).filter fun row =>
          !model.isRestricted set || model.isOfType engine set.root row
      | .error _ => [] }

/-- The columns that tell whether a row of an entity set is an entity of it. -/
def extentReads (model : Model) (relation : String) : List String :=
  match model.relation relation with
  | .ok set => if model.isRestricted set then model.typeReads set.root else []
  | .error _ => []

/-! ## Columns of types -/

theorem nodup_eraseDups {names : List String} : names.eraseDups.Nodup := by
  induction hlength : names.length using Nat.strong_induction_on generalizing names with
  | _ length ih =>
    cases names with
    | nil => exact List.nodup_nil
    | cons name names =>
      rw [List.eraseDups_cons, List.nodup_cons]
      have hshorter : (names.filter fun b => !b == name).length < length := by
        rw [← hlength, List.length_cons]
        exact Nat.lt_succ_of_le (List.length_filter_le _ _)
      exact ⟨by simp, ih _ hshorter rfl⟩

/-- The columns of a type have distinct names. -/
theorem nodup_typeColumns (model : Model) (name : String) : (model.typeColumns name).Nodup :=
  nodup_eraseDups

end Model

namespace Plan

/-! ## Plans over entities

To a caller the rows of a plan are entities.  A type filter keeps those of its type and shows the
columns of the type. -/

/-- The columns that a plan shows a caller. -/
def entityColumns (model : Model) : Plan → List OutputColumn
  | source relation => (model.setColumns relation).map .passThrough
  | project columns _ => columns
  | ofType subtype _ => (model.typeColumns subtype).map .passThrough
  | filter _ p | sort _ p | skip _ p | take _ p => p.entityColumns model

/-- The names of the columns that a plan shows a caller. -/
def entityNames (model : Model) (plan : Plan) : List String :=
  columnNames (plan.entityColumns model)

/-- What a caller may see of a plan: its results over the entities of the model, on the visible
columns. -/
def entityAnswers (model : Model) (engine : Engine) (tables : String → List Row) (nulls : NullMode)
    (plan : Plan) : Outcomes (List (String × Value)) :=
  (plan.results (model.entityStore engine tables nulls)).map
    (Row.shown (visibleNames (plan.entityColumns model)))

/-- Every column that is read is one that the entity set has.  This is asked below a type filter,
where the rows are whole entities and no projection can stand. -/
def WholeScoped (model : Model) : Plan → Prop
  | source relation => model.extentReads relation ⊆ model.setColumns relation
  | filter predicate p => predicate.references ⊆ model.setColumns p.relation ∧ p.WholeScoped model
  | project _ _ => True
  | sort keys p =>
    (∀ key ∈ keys, key.expr.references ⊆ model.setColumns p.relation) ∧ p.WholeScoped model
  | skip _ p | take _ p => p.WholeScoped model
  | ofType subtype p => model.typeReads subtype ⊆ model.setColumns p.relation ∧ p.WholeScoped model

instance WholeScoped.decidable (model : Model) : (plan : Plan) → Decidable (plan.WholeScoped model)
  | source relation =>
    inferInstanceAs (Decidable (model.extentReads relation ⊆ model.setColumns relation))
  | filter predicate p =>
    have := WholeScoped.decidable model p
    inferInstanceAs (Decidable (predicate.references ⊆ model.setColumns p.relation ∧
      p.WholeScoped model))
  | project _ _ => isTrue trivial
  | sort keys p =>
    have := WholeScoped.decidable model p
    inferInstanceAs (Decidable ((∀ key ∈ keys, key.expr.references ⊆ model.setColumns p.relation) ∧
      p.WholeScoped model))
  | skip _ p | take _ p => WholeScoped.decidable model p
  | ofType subtype p =>
    have := WholeScoped.decidable model p
    inferInstanceAs (Decidable (model.typeReads subtype ⊆ model.setColumns p.relation ∧
      p.WholeScoped model))

/-- Every column that is read is one that the input shows, the columns of each projection have
distinct names, and the entity set has the columns of the types that are asked for and those that
tell them apart.  Between type filters that stand over one another the columns of the whole entity
may be read, and not only those of the type below. -/
def EntityScoped (model : Model) : Plan → Prop
  | source relation => model.extentReads relation ⊆ model.setColumns relation
  | filter predicate p => predicate.references ⊆ p.entityNames model ∧ p.EntityScoped model
  | project columns p =>
    (∀ c ∈ columns, c.expr.references ⊆ p.entityNames model) ∧ (columnNames columns).Nodup ∧
      p.EntityScoped model
  | sort keys p =>
    (∀ key ∈ keys, key.expr.references ⊆ p.entityNames model) ∧ p.EntityScoped model
  | skip _ p | take _ p => p.EntityScoped model
  | ofType subtype p =>
    model.typeColumns subtype ⊆ model.setColumns p.relation ∧ (ofType subtype p).WholeScoped model

instance EntityScoped.decidable (model : Model) :
    (plan : Plan) → Decidable (plan.EntityScoped model)
  | source relation =>
    inferInstanceAs (Decidable (model.extentReads relation ⊆ model.setColumns relation))
  | filter predicate p =>
    have := EntityScoped.decidable model p
    inferInstanceAs (Decidable (predicate.references ⊆ p.entityNames model ∧ p.EntityScoped model))
  | project columns p =>
    have := EntityScoped.decidable model p
    inferInstanceAs (Decidable ((∀ c ∈ columns, c.expr.references ⊆ p.entityNames model) ∧
      (columnNames columns).Nodup ∧ p.EntityScoped model))
  | sort keys p =>
    have := EntityScoped.decidable model p
    inferInstanceAs (Decidable ((∀ key ∈ keys, key.expr.references ⊆ p.entityNames model) ∧
      p.EntityScoped model))
  | skip _ p | take _ p => EntityScoped.decidable model p
  | ofType subtype p =>
    inferInstanceAs (Decidable (model.typeColumns subtype ⊆ model.setColumns p.relation ∧
      (ofType subtype p).WholeScoped model))

end Plan

end EntityQuery
