/-
# Compiled plans

Compiling takes a plan over the entities of a model to the text of a statement over its tables.  The
four stages are put together here:

* `Plan.prepares_of_prepare`: adjusting to the null mode, resolving type filters and lifting sorts
  change no answer;
* `Plan.compile_sound`: what the statement answers is an answer of the plan.
-/
import EntityQuery.Compiler
import EntityQuery.Proofs.Nulls
import EntityQuery.Proofs.Ordering.Preservation
import EntityQuery.Proofs.Select.Emission
import EntityQuery.Proofs.TypeFilter.Resolve

namespace EntityQuery

namespace Plan

/-! ## Adjusted plans -/

section Adjusted

variable {model : Model} {mode : NullMode} {plan : Plan}

@[simp] theorem relation_adjust : (plan.adjust mode).relation = plan.relation := by
  induction plan with
  | source relation => rfl
  | filter _ p ih | project _ p ih | sort _ p ih | skip _ p ih | take _ p ih | ofType _ p ih =>
    exact ih

@[simp] theorem entityColumns_adjust :
    (plan.adjust mode).entityColumns model = plan.entityColumns model := by
  induction plan with
  | source relation | project columns p ih | ofType subtype p ih => rfl
  | filter _ p ih | sort _ p ih | skip _ p ih | take _ p ih => exact ih

/-- Adjusted filters read no columns but those that the filters read. -/
theorem wholeScoped_adjust (h : plan.WholeScoped model) : (plan.adjust mode).WholeScoped model := by
  induction plan with
  | source relation | project columns p ih => exact h
  | filter predicate p ih =>
    rw [adjust, WholeScoped, relation_adjust]
    exact ⟨List.Subset.trans (Expr.references_adjust_subset mode predicate) h.1, ih h.2⟩
  | sort keys p ih =>
    rw [adjust, WholeScoped, relation_adjust]
    exact ⟨h.1, ih h.2⟩
  | skip count p ih | take count p ih => exact ih h
  | ofType subtype p ih =>
    rw [adjust, WholeScoped, relation_adjust]
    exact ⟨h.1, ih h.2⟩

/-- Adjusted filters read what their input shows. -/
theorem entityScoped_adjust (h : plan.EntityScoped model) :
    (plan.adjust mode).EntityScoped model := by
  have hnames : ∀ p : Plan, (p.adjust mode).entityNames model = p.entityNames model := by
    intro p
    rw [entityNames, entityColumns_adjust, entityNames]
  induction plan with
  | source relation => exact h
  | filter predicate p ih =>
    refine ⟨?_, ih h.2⟩
    rw [hnames]
    exact List.Subset.trans (Expr.references_adjust_subset mode predicate) h.1
  | project columns p ih => exact ⟨by rw [hnames]; exact h.1, h.2.1, ih h.2.2⟩
  | sort keys p ih => exact ⟨by rw [hnames]; exact h.1, ih h.2⟩
  | skip count p ih | take count p ih => exact ih h
  | ofType subtype p ih =>
    rw [adjust, EntityScoped, relation_adjust]
    exact ⟨h.1, wholeScoped_adjust h.2⟩

/-- Adjusting produces no further columns. -/
theorem avoids_adjust {store : Store} {name : String} (h : plan.Avoids store name) :
    (plan.adjust mode).Avoids store name := by
  induction plan with
  | source relation => exact h
  | project columns p ih => exact ⟨h.1, ih h.2⟩
  | filter _ p ih | sort _ p ih | skip _ p ih | take _ p ih | ofType _ p ih => exact ih h

end Adjusted

/-! ## Preparation -/

section Prepared

variable {engine : Engine} {tables : String → List Row} {model : Model} {options : Options}
  {plan prepared : Plan}

/-- A prepared plan was adjusted, resolved and lifted. -/
theorem prepare_eq_ok (h : plan.prepare model options = .ok prepared) :
    ∃ resolved, (plan.adjust options.nulls).resolve model options.shaping = .ok resolved ∧
      resolved.lift options.sweeps = .ok prepared := by
  obtain ⟨_, -, h⟩ := exists_ok_of_bind_eq_ok h
  exact exists_ok_of_bind_eq_ok h

/-- The text of a plan is that of the statement of its prepared form. -/
theorem compile_eq_ok {sql : String} (hprepare : plan.prepare model options = .ok prepared)
    (h : plan.compile model options = .ok sql) :
    ∃ statement, prepared.statement model = .ok statement ∧ sql = statement.sql := by
  have hemit : prepared.emit model = .ok sql := by
    rw [compile, hprepare] at h
    exact h
  unfold emit at hemit
  cases hstatement : prepared.statement model with
  | error fault =>
    rw [hstatement] at hemit
    cases hemit
  | ok statement =>
    rw [hstatement] at hemit
    exact ⟨statement, rfl, (Except.ok.inj hemit).symm⟩

/-- What a prepared plan has to do with the plan: over the tables it answers what the plan answers
over entities, and it is fit to become a statement. -/
structure Prepares (engine : Engine) (tables : String → List Row) (model : Model) (nulls : NullMode)
    (plan prepared : Plan) : Prop where
  relation_eq : prepared.relation = plan.relation
  visibleNames_eq : visibleNames (prepared.outputs (model.tableStore engine tables)) =
    visibleNames (plan.entityColumns model)
  answers_eq : prepared.answers (model.tableStore engine tables) =
    plan.entityAnswers model engine tables nulls
  reads_scoped : prepared.Scoped (model.tableStore engine tables)
  avoids : prepared.Avoids (model.tableStore engine tables) rowNumberColumn
  canonical : prepared.checkCanonical = .ok ()

/-- **Preparing keeps the meaning**, whether or not the sweeps reach a plan to which no rule
applies. -/
theorem prepares_of_prepare (hscoped : plan.EntityScoped model)
    (havoids : plan.Avoids (model.tableStore engine tables) rowNumberColumn)
    (hplain : plan.plainFilters = true)
    (hrows : ((model.tableStore engine tables).rows plan.relation).length < UInt64.size)
    (h : plan.prepare model options = .ok prepared) :
    Prepares engine tables model options.nulls plan prepared := by
  obtain ⟨resolved, hresolve, hlift⟩ := prepare_eq_ok h
  obtain ⟨-, rfl, hcanonical⟩ := lift_eq_ok_iff.mp hlift
  have hresolves : Resolves model engine tables ((plan.adjust options.nulls).entityColumns model)
      (plan.adjust options.nulls) resolved :=
    resolves_of_resolve (entityScoped_adjust hscoped) hresolve
  have hrelation : resolved.relation = plan.relation :=
    hresolves.relation_eq.trans relation_adjust
  have hsteps := sweepUpTo_steps options.sweeps resolved
  obtain ⟨hwide, hlifted, hsame⟩ :=
    widened_of_steps hsteps hresolves.reads_scoped (hrelation ▸ hrows)
  rw [entityColumns_adjust] at hresolves
  -- lifting may add hidden columns, so from here on only the visible ones are compared
  refine ⟨hsame.trans hrelation, ?_, ?_, hlifted, ?_, hcanonical⟩
  · rw [hwide.visibleNames_eq, visibleNames_eq_of_headers hresolves.headers_eq]
  · rw [hwide.answers_eq, hresolves.answers_eq, entityAnswers,
      ← results_adjust (model.entityStore engine tables options.nulls) hplain]
    rfl
  · exact avoids_of_steps (by decide) hsteps hresolves.reads_scoped (hrelation ▸ hrows)
      (hresolves.avoids _ (avoids_adjust havoids))

end Prepared

/-! ## Main statement -/

/-- **Compiling is sound.**  Where a plan compiles and its sweeps reached a plan to which no rule
applies, the text is that of a statement which has the visible columns of the plan, in the same
order, and whatever the statement answers over the tables is an answer of the plan over the entities
in the null mode of the options; and it does answer. -/
theorem compile_sound (engine : Engine) (tables : String → List Row) (model : Model)
    (options : Options) (plan prepared : Plan) (sql : String) (hscoped : plan.EntityScoped model)
    (havoids : plan.Avoids (model.tableStore engine tables) rowNumberColumn)
    (hplain : plan.plainFilters = true)
    (hrows : ((model.tableStore engine tables).rows plan.relation).length < 2 ^ 63)
    (hprepare : plan.prepare model options = .ok prepared)
    (hsettled : (prepared.sweep .needsOrder).2 = false)
    (hcompile : plan.compile model options = .ok sql) :
    ∃ statement, prepared.statement model = .ok statement ∧ sql = statement.sql ∧
      visibleNames statement.clauses.columns = visibleNames (plan.entityColumns model) ∧
      statement.answers engine tables ⊆ plan.entityAnswers model engine tables options.nulls ∧
      (statement.answers engine tables).Nonempty := by
  have hprepared := prepares_of_prepare hscoped havoids hplain (hrows.trans (by decide)) hprepare
  obtain ⟨statement, hstatement, rfl⟩ := compile_eq_ok hprepare hcompile
  obtain ⟨hvisible, hsubset⟩ := answers_statement_subset hprepared.reads_scoped hprepared.avoids
    (hprepared.relation_eq ▸ hrows) hsettled hprepared.canonical hstatement
  refine ⟨statement, hstatement, rfl, hvisible.trans hprepared.visibleNames_eq, ?_,
    statement.answers_nonempty engine tables⟩
  rw [← hprepared.answers_eq]
  exact hsubset

/-- A model of animals in one table: cats and dogs, which a discriminator tells apart. -/
def animalsModel : Model where
  sets := [
    { name := "Animals", table := "dbo.Animals", root := "Animal", discriminator := some "Kind" }]
  types := [
    { name := "Animal", properties := [⟨"Id", "Id"⟩, ⟨"Name", "Name"⟩] },
    { name := "Cat", base := some "Animal", properties := [⟨"Lives", "Lives"⟩],
      conditions := [⟨"Kind", .equals (.string "cat")⟩] },
    { name := "Dog", base := some "Animal", properties := [⟨"Owner", "Owner"⟩],
      conditions := [⟨"Kind", .equals (.string "dog")⟩] }]

/-- The names of a page of the dogs that are not of one owner; a dog may have none. -/
def dogNames : Plan :=
  project [.passThrough "Name"] (take 2 (skip 1 (sort [⟨.column "Id", .desc⟩]
    (filter (.binary .ne (.column "Owner") (.literal (.string "Ada")))
      (ofType "Dog" (source "Animals"))))))

/-- Over a table with a dog and a row of no known kind. -/
theorem compile_sound_dogNames :
    let tables := fun _ => [fun | "Kind" => Value.string "dog" | _ => .null, fun _ => Value.int 1]
    let store := animalsModel.tableStore Engine.standard tables
    ∃ prepared sql, dogNames.prepare animalsModel {} = .ok prepared ∧
      dogNames.compile animalsModel {} = .ok sql ∧ dogNames.EntityScoped animalsModel ∧
      dogNames.Avoids store rowNumberColumn ∧ dogNames.plainFilters = true ∧
      (store.rows dogNames.relation).length < 2 ^ 63 ∧ (prepared.sweep .needsOrder).2 = false ∧
      ∃ statement, prepared.statement animalsModel = .ok statement ∧ sql = statement.sql ∧
        visibleNames statement.clauses.columns =
          visibleNames (dogNames.entityColumns animalsModel) ∧
        statement.answers Engine.standard tables ⊆
          dogNames.entityAnswers animalsModel Engine.standard tables .host ∧
        (statement.answers Engine.standard tables).Nonempty :=
  ⟨_, _, rfl, rfl, by decide, by decide, by decide, by decide, by decide +kernel,
    compile_sound _ _ _ {} _ _ _ (by decide) (by decide) (by decide) (by decide) rfl
      (by decide +kernel) rfl⟩

-- a column of dogs may be read before the dogs are told from the other animals
example : (ofType "Dog" (filter (.isNotNull (.column "Owner"))
    (ofType "Animal" (source "Animals")))).EntityScoped animalsModel := by
  decide

end Plan

end EntityQuery
