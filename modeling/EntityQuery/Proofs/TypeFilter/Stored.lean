/-
# Resolved plans over stored rows

A table may store more than the columns that its entity set lists, and the conditions of a model may
read any of them.  Here the rows of a store are taken as they are stored, whole, and what is shown
of them is decided at the end.  Over such rows nothing is asked of the model:

* under a type filter a resolved plan has exactly the rows of the plan (`Plan.results_whole`);
* elsewhere it has them on the columns that the plan shows (`Plan.results_shown`).

`Model.entities` is the reading of a store as entities, `Plan.resolve_preserves_answers` the main
statement.
-/
import EntityQuery.Proofs.Nulls
import EntityQuery.Proofs.TypeFilter.Resolve

namespace EntityQuery

/-! ## Type predicates in both null modes -/

/-- The predicate of a condition compares nothing, so that both null modes read it alike. -/
theorem Condition.comparisonFree_predicate (condition : Condition) :
    condition.predicate.comparisonFree = true := by
  unfold predicate
  cases condition.test <;> rfl

/-- Joining by a connective compares nothing. -/
theorem Expr.comparisonFree_joinedBy {op : Op} (hop : op.isComparison = false) {es : List Expr}
    {e : Expr} (h : joinedBy op es = some e) (hes : ∀ c ∈ es, c.comparisonFree = true) :
    e.comparisonFree = true := by
  have hfold : ∀ (cs : List Expr) (c : Expr), c.comparisonFree = true →
      (∀ d ∈ cs, d.comparisonFree = true) → (cs.foldl (binary op) c).comparisonFree = true := by
    intro cs
    induction cs with
    | nil => exact fun c hc _ => hc
    | cons d cs ih =>
      intro c hc hcs
      refine ih _ ?_ fun e he => hcs e (List.mem_cons_of_mem d he)
      rw [comparisonFree, hop, hc, hcs d List.mem_cons_self]
      rfl
  cases es with
  | nil => cases h
  | cons c cs =>
    obtain rfl := Option.some.inj h
    exact hfold cs c (hes c List.mem_cons_self) fun d hd => hes d (List.mem_cons_of_mem c hd)

/-- Nor does the predicate of several types. -/
theorem comparisonFree_unionPredicate {column : String} {mapped : List (EntityType Condition)}
    {e : Expr} (h : unionPredicate? column mapped = some e) : e.comparisonFree = true := by
  unfold unionPredicate? at h
  split at h
  · obtain rfl := Option.some.inj h
    rfl
  · refine Expr.comparisonFree_joinedBy rfl h fun c hc => ?_
    obtain ⟨t, -, hpredicate⟩ := List.mem_filterMap.mp hc
    refine Expr.comparisonFree_joinedBy rfl hpredicate fun d hd => ?_
    obtain ⟨condition, -, rfl⟩ := List.mem_map.mp hd
    exact condition.comparisonFree_predicate

namespace Model

variable {model : Model} {name : String} {e : Expr}

/-- The predicate of a type compares nothing: it is made of list tests and null tests. -/
theorem comparisonFree_subtreePredicate (h : model.subtreePredicate? name = some e) :
    e.comparisonFree = true := by
  unfold subtreePredicate? at h
  simp only at h
  split at h
  next => exact comparisonFree_unionPredicate h
  next => cases h

/-- In either null mode the predicate of a type is true of the rows of the type. -/
theorem holds_subtreePredicate_mode (h : model.subtreePredicate? name = some e) (engine : Engine)
    (mode : NullMode) (row : Row) :
    e.holds engine mode row = model.isOfType engine name row := by
  rw [← holds_subtreePredicate h, Expr.holds, Expr.holds, Expr.truth, Expr.truth,
    Expr.eval_comparisonFree (comparisonFree_subtreePredicate h) mode]

/-! ## Stored entities -/

/-- Whether a stored row of an entity set is an entity of it. -/
def isEntity (model : Model) (engine : Engine) (set : EntitySet) (row : Row) : Bool :=
  !model.isRestricted set || model.isOfType engine set.root row

/-- A store of tables read as one of entities: an entity set whose types a discriminator tells apart
has only the rows of a type that the model knows, and types are told by the conditions of the
model. -/
def entities (model : Model) (store : Store) : Store where
  engine := store.engine
  nulls := store.nulls
  columns := store.columns
  rows relation :=
    match model.relation relation with
    | .ok set => (store.rows relation).filter fun row =>
        model.isEntity store.engine set (Row.cut (store.columns relation) row)
    | .error _ => []
  typeReads := model.typeReads
  isOfType := model.isOfType store.engine
  isOfType_congr := model.isOfType_congr store.engine

/-- The entities of a set are told by its predicate, if it has one. -/
theorem isEntity_eq (engine : Engine) (mode : NullMode) (set : EntitySet) (row : Row) :
    model.isEntity engine set row =
      (model.extentPredicate? set).all fun e => e.holds engine mode row := by
  cases h : model.extentPredicate? set with
  | none =>
    have hfree : model.isRestricted set = false := by
      rw [← extentPredicate_isSome, h, Option.isSome_none]
    rw [isEntity, hfree]
    rfl
  | some e =>
    rw [isEntity, isRestricted_of_extentPredicate h, Option.all_some,
      holds_subtreePredicate_mode (subtreePredicate_of_extentPredicate h)]
    rfl

end Model

namespace Plan

/-! ## What is asked of a plan -/

/-- Whether no type filter occurs in the plan. -/
def typeFree : Plan → Bool
  | source _ => true
  | ofType _ _ => false
  | filter _ p | project _ p | sort _ p | skip _ p | take _ p => p.typeFree

/-- Every column that is read is one that the input shows.  Below a type filter the rows are whole
entities, and nothing is asked there. -/
def ReadsShown (model : Model) : Plan → Prop
  | source _ | ofType _ _ => True
  | filter predicate p => predicate.references ⊆ p.entityNames model ∧ p.ReadsShown model
  | project columns p =>
    (∀ c ∈ columns, c.expr.references ⊆ p.entityNames model) ∧ p.ReadsShown model
  | sort keys p => (∀ key ∈ keys, key.expr.references ⊆ p.entityNames model) ∧ p.ReadsShown model
  | skip _ p | take _ p => p.ReadsShown model

instance ReadsShown.decidable (model : Model) : (plan : Plan) → Decidable (plan.ReadsShown model)
  | source _ | ofType _ _ => isTrue trivial
  | filter predicate p =>
    have := ReadsShown.decidable model p
    inferInstanceAs (Decidable (predicate.references ⊆ p.entityNames model ∧ p.ReadsShown model))
  | project columns p =>
    have := ReadsShown.decidable model p
    inferInstanceAs (Decidable ((∀ c ∈ columns, c.expr.references ⊆ p.entityNames model) ∧
      p.ReadsShown model))
  | sort keys p =>
    have := ReadsShown.decidable model p
    inferInstanceAs (Decidable ((∀ key ∈ keys, key.expr.references ⊆ p.entityNames model) ∧
      p.ReadsShown model))
  | skip _ p | take _ p => ReadsShown.decidable model p

/-- What a caller sees of a plan over a store: its results on the columns that it shows. -/
def seen (model : Model) (store : Store) (plan : Plan) : Outcomes (List (String × Value)) :=
  (plan.results store).map (Row.shown (visibleNames (plan.entityColumns model)))

section

variable {model : Model} {shaping : Shaping} {store : Store} {p q : Plan}

/-- A resolved plan has no type filters. -/
theorem typeFree_of_resolveUnder {outer : Option String}
    (h : p.resolveUnder model shaping outer = .ok q) : q.typeFree = true := by
  induction p generalizing outer q with
  | source relation =>
    obtain ⟨set, -, h⟩ := exists_ok_of_bind_eq_ok h
    split at h
    · obtain rfl := Except.ok.inj h
      rfl
    · obtain rfl := Except.ok.inj h
      rfl
  | filter _ p ih | project _ p ih | sort _ p ih | skip _ p ih | take _ p ih =>
    obtain ⟨input, hinput, rfl⟩ := exists_ok_of_bind_pure_eq_ok h
    have hfree : input.typeFree = true := ih hinput
    exact hfree
  | ofType subtype p ih =>
    obtain ⟨set, e, input, -, -, hinput, rfl⟩ := resolveUnder_ofType_eq_ok h
    have hfree : input.typeFree = true := ih hinput
    have hrestricted : (restrictedBy model set e input).typeFree = true := by
      unfold restrictedBy
      split <;> exact hfree
    cases outer <;> exact hrestricted

/-! ## Rows -/

/-- A resolved source has the entities of its set. -/
theorem results_source {outer : Option String} {relation : String}
    (h : (source relation).resolveUnder model shaping outer = .ok q) :
    q.results store = (source relation).results (model.entities store) := by
  obtain ⟨set, hset, h⟩ := exists_ok_of_bind_eq_ok h
  have hrows : (model.entities store).rows relation = (store.rows relation).filter fun row =>
      (model.extentPredicate? set).all fun e =>
        e.holds store.engine store.nulls (Row.cut (store.columns relation) row) := by
    simp only [Model.entities, hset, Model.isEntity_eq store.engine store.nulls]
  rw [results, hrows]
  split at h
  next e he =>
    obtain rfl := Except.ok.inj h
    rw [he, results, results, Outcomes.filter_shuffle, Outcomes.filter_singleton, List.filter_map]
    rfl
  next hnone =>
    obtain rfl := Except.ok.inj h
    rw [hnone]
    simp only [Option.all_none, List.filter_true]
    rfl

/-- A restricted input has the rows of the type. -/
theorem results_restrictedBy {subtype : String} {set : EntitySet} {e : Expr}
    (hset : p.filteredSet model subtype = .ok set)
    (hpredicate : model.typePredicate set subtype = .ok e)
    (hq : q.results store = p.results (model.entities store)) :
    (restrictedBy model set e q).results store =
      (ofType subtype p).results (model.entities store) := by
  obtain ⟨hprojection, hrelation⟩ := filteredSet_eq_ok hset
  have htype := Model.holds_subtreePredicate_mode
    (Model.subtreePredicate_of_typePredicate hpredicate) store.engine store.nulls
  have hfilter : (p.results (model.entities store)).filter (e.holds store.engine store.nulls) =
      (ofType subtype p).results (model.entities store) :=
    Outcomes.filter_congr fun _ _ row _ => htype row
  unfold restrictedBy
  split
  next hextent =>
    -- the entities of the set are those of the type, so that the type filter keeps every row
    rw [hq, ← hfilter, Outcomes.filter_eq_self]
    intro rows hrows row hrow
    obtain ⟨entity, hentity, rfl⟩ :=
      List.mem_map.mp (mem_extent_of_mem_results hprojection hrows row hrow)
    simp only [Model.entities, hrelation, List.mem_filter,
      Model.isEntity_eq store.engine store.nulls, hextent, Option.all_some] at hentity
    exact hentity.2
  next => rw [results, hq, ← hfilter]

/-- **Under a type filter** a resolved plan has the rows of the plan, whole. -/
theorem results_whole {outer : String} (hprojection : p.hasProjection = false)
    (h : p.resolveUnder model shaping (some outer) = .ok q) :
    q.results store = p.results (model.entities store) := by
  induction p generalizing outer q with
  | source relation => exact results_source h
  | project columns p ih => cases hprojection
  | filter _ p ih | sort _ p ih | skip _ p ih | take _ p ih =>
    obtain ⟨input, hinput, rfl⟩ := exists_ok_of_bind_pure_eq_ok h
    rw [results, ih hprojection hinput]
    rfl
  | ofType subtype p ih =>
    obtain ⟨set, e, input, hset, he, hinput, rfl⟩ := resolveUnder_ofType_eq_ok h
    exact results_restrictedBy hset he (ih hprojection hinput)

/-- The rows of a type, projected to the columns of the type, keep the values they have there. -/
theorem results_shape {subtype : String} {set : EntitySet} {e : Expr}
    (hpredicate : model.typePredicate set subtype = .ok e)
    (hq : q.results store = (ofType subtype p).results (model.entities store)) :
    (project (model.shape shaping set subtype e) q).results store =
      ((ofType subtype p).results (model.entities store)).map
        (Row.cut (model.typeColumns subtype)) := by
  have he := Model.subtreePredicate_of_typePredicate hpredicate
  rw [results, hq]
  refine Outcomes.map_congr fun rows hrows row hrow => Model.project_shape ?_
  obtain ⟨xs, -, rfl⟩ := hrows
  exact (Model.holds_subtreePredicate he).trans (List.mem_filter.mp hrow).2

/-- **A resolved plan** shows the columns of the plan, and on these has its rows. -/
theorem results_shown (hscoped : p.ReadsShown model) (h : p.resolve model shaping = .ok q) :
    headers (q.entityColumns model) = headers (p.entityColumns model) ∧
      (q.results store).map (Row.cut (p.entityNames model)) =
        (p.results (model.entities store)).map (Row.cut (p.entityNames model)) := by
  unfold resolve at h
  induction p generalizing q with
  | source relation =>
    refine ⟨?_, by rw [results_source h]⟩
    obtain ⟨set, -, h⟩ := exists_ok_of_bind_eq_ok h
    split at h
    · obtain rfl := Except.ok.inj h
      rfl
    · obtain rfl := Except.ok.inj h
      rfl
  | filter predicate p ih =>
    obtain ⟨input, hinput, rfl⟩ := exists_ok_of_bind_pure_eq_ok h
    obtain ⟨hheaders, hrows⟩ := ih hscoped.2 hinput
    have hkeep : ∀ row, predicate.holds store.engine store.nulls (Row.cut (p.entityNames model) row)
        = predicate.holds store.engine store.nulls row := Expr.holds_cut hscoped.1
    refine ⟨hheaders, ?_⟩
    rw [results, results,
      show (filter predicate p).entityNames model = p.entityNames model from rfl,
      Outcomes.filter_map_cut hkeep, hrows]
    exact (Outcomes.filter_map_cut hkeep _).symm
  | project columns p ih =>
    obtain ⟨input, hinput, rfl⟩ := exists_ok_of_bind_pure_eq_ok h
    obtain ⟨-, hrows⟩ := ih hscoped.2 hinput
    refine ⟨rfl, congrArg _ ?_⟩
    rw [results, results, ← Outcomes.project_map_cut hscoped.1, hrows,
      Outcomes.project_map_cut hscoped.1]
    rfl
  | sort keys p ih =>
    obtain ⟨input, hinput, rfl⟩ := exists_ok_of_bind_pure_eq_ok h
    obtain ⟨hheaders, hrows⟩ := ih hscoped.2 hinput
    refine ⟨hheaders, ?_⟩
    rw [results, results, show (sort keys p).entityNames model = p.entityNames model from rfl,
      Outcomes.sort_map_cut hscoped.1, hrows]
    exact (Outcomes.sort_map_cut hscoped.1 _).symm
  | skip count p ih =>
    obtain ⟨input, hinput, rfl⟩ := exists_ok_of_bind_pure_eq_ok h
    obtain ⟨hheaders, hrows⟩ := ih hscoped hinput
    refine ⟨hheaders, ?_⟩
    rw [results, results, show (skip count p).entityNames model = p.entityNames model from rfl,
      Outcomes.map_drop, Outcomes.map_drop, hrows]
  | take count p ih =>
    obtain ⟨input, hinput, rfl⟩ := exists_ok_of_bind_pure_eq_ok h
    obtain ⟨hheaders, hrows⟩ := ih hscoped hinput
    refine ⟨hheaders, ?_⟩
    rw [results, results, show (take count p).entityNames model = p.entityNames model from rfl,
      Outcomes.map_take, Outcomes.map_take, hrows]
  | ofType subtype p _ =>
    obtain ⟨set, e, input, hset, he, hinput, rfl⟩ := resolveUnder_ofType_eq_ok h
    have hwhole : input.results store = p.results (model.entities store) :=
      results_whole (filteredSet_eq_ok hset).1 hinput
    have hnames : (ofType subtype p).entityNames model = model.typeColumns subtype :=
      columnNames_passThrough _
    refine ⟨Model.headers_shape, ?_⟩
    rw [Option.elim_none, results_shape he (results_restrictedBy hset he hwhole), hnames,
      Outcomes.map_map]
    exact congrArg ((ofType subtype p).results (model.entities store)).map
      (funext fun row => Row.cut_cut (List.Subset.refl _) row)

end

/-! ## Main statement -/

/-- **Resolving keeps the meaning.**  Whatever the shaping, a resolved plan has no type filters,
shows the visible columns of the plan, in the same order, and over every store of tables has exactly
the answers that the plan has over the entities stored there. -/
theorem resolve_preserves_answers (model : Model) (shaping : Shaping) (store : Store)
    (plan resolved : Plan) (hscoped : plan.ReadsShown model)
    (hresolve : plan.resolve model shaping = .ok resolved) :
    resolved.typeFree = true ∧
      visibleNames (resolved.entityColumns model) = visibleNames (plan.entityColumns model) ∧
      resolved.seen model store = plan.seen model (model.entities store) := by
  obtain ⟨hheaders, hrows⟩ := results_shown hscoped hresolve
  have hvisible := visibleNames_eq_of_headers hheaders
  refine ⟨typeFree_of_resolveUnder hresolve, hvisible, ?_⟩
  have hshown : ∀ R : Outcomes Row, R.map (Row.shown (visibleNames (plan.entityColumns model))) =
      (R.map (Row.cut (plan.entityNames model))).map
        (Row.shown (visibleNames (plan.entityColumns model))) := by
    intro R
    rw [Outcomes.map_map]
    exact congrArg R.map
      (funext fun row => (Row.shown_cut (visibleNames_subset (plan.entityColumns model)) row).symm)
  rw [seen, seen, hvisible, hshown, hrows, ← hshown]

/-- A model of vehicles.  Whether a car is retired is stored, but is no property of any type. -/
def vehiclesModel : Model where
  sets := [
    { name := "Vehicles", table := "dbo.Vehicles", root := "Vehicle",
      discriminator := some "Kind" }]
  types := [
    { name := "Vehicle", properties := [⟨"Id", "Id"⟩] },
    { name := "Car", base := some "Vehicle", properties := [⟨"Doors", "Doors"⟩],
      conditions := [⟨"Kind", .equals (.string "car")⟩, ⟨"Retired", .isNull⟩] },
    { name := "SportsCar", base := some "Car", properties := [⟨"TopSpeed", "TopSpeed"⟩],
      conditions := [⟨"Kind", .equals (.string "sports")⟩] }]

/-- Three vehicles, of which one is retired. -/
def vehiclesStore : Store :=
  { vehiclesModel.tableStore Engine.standard fun _ =>
      [fun | "Kind" => .string "sports" | "TopSpeed" => .int 250 | "Id" => .int 1 | _ => .null,
        fun | "Kind" => .string "car" | "Retired" => .int 1990 | "Id" => .int 2 | _ => .null,
        fun | "Kind" => .string "car" | "Id" => .int 3 | _ => .null] with
    columns := fun _ => ["Id", "Kind", "Retired", "Doors", "TopSpeed"] }

/-- The fast ones among the first cars. -/
def fastCars : Plan :=
  filter (.binary .gt (.column "TopSpeed") (.literal (.int 200))) (ofType "SportsCar"
    (take 2 (sort [⟨.column "Id", .asc⟩] (ofType "Car" (source "Vehicles")))))

/-- Two type filters with a take between them. -/
theorem resolve_preserves_answers_fastCars :
    ∃ resolved, fastCars.resolve vehiclesModel .subtypeOnly = .ok resolved ∧
      fastCars.ReadsShown vehiclesModel ∧ resolved.typeFree = true ∧
      visibleNames (resolved.entityColumns vehiclesModel) =
        visibleNames (fastCars.entityColumns vehiclesModel) ∧
      resolved.seen vehiclesModel vehiclesStore =
        fastCars.seen vehiclesModel (vehiclesModel.entities vehiclesStore) :=
  ⟨_, rfl, by decide, resolve_preserves_answers _ _ _ fastCars _ (by decide) rfl⟩

end Plan

end EntityQuery
