/-
# Resolving type filters keeps the meaning

A resolved plan runs over the tables of a model and means what the plan means over its entities.
`Resolves columns p q` says so for a plan `p` of which `columns` are still wanted.

* Under a type filter the rows stay whole, and all columns of the entity set are wanted
  (`resolves_whole`).
* Elsewhere the columns that the plan shows are wanted (`resolves_of_resolve`).

The columns of a type are computed for rows of the type only; the rows that a type filter lets
through are all of its type, so that they keep their values (`Model.project_shape`).
-/
import EntityQuery.Proofs.TypeFilter.Predicate
import EntityQuery.TypeFilter.Resolve

namespace EntityQuery

/-! ## The columns of a type -/

namespace Model

variable {model : Model} {shaping : Shaping} {set : EntitySet} {subtype : String} {e : Expr}

/-- Shaping changes what columns hold, not which ones there are. -/
theorem headers_shape : headers (model.shape shaping set subtype e) =
    headers ((model.typeColumns subtype).map OutputColumn.passThrough) := by
  simp only [shape, headers, List.map_map]
  refine List.map_congr_left fun name _ => ?_
  rw [Function.comp_apply, Function.comp_apply]
  split <;> rfl

/-- The columns of a shape are those of its type. -/
theorem columnNames_shape :
    columnNames (model.shape shaping set subtype e) = model.typeColumns subtype := by
  rw [columnNames_eq_of_headers headers_shape, columnNames_passThrough]

/-- A column of a type is the column itself, handed on or computed where the predicate is true. -/
theorem expr_of_mem_shape {c : OutputColumn} (h : c ∈ model.shape shaping set subtype e) :
    c.name ∈ model.typeColumns subtype ∧
      (c.expr = .column c.name ∨ c.expr = .caseWhen e (.column c.name)) := by
  obtain ⟨name, hname, rfl⟩ := List.mem_map.mp h
  split
  · exact ⟨hname, Or.inl rfl⟩
  · exact ⟨hname, Or.inr rfl⟩

/-- A shape reads the columns of its type and those that tell the type. -/
theorem references_shape_subset {names : List String} (hcolumns : model.typeColumns subtype ⊆ names)
    (he : e.references ⊆ names) :
    ∀ c ∈ model.shape shaping set subtype e, c.expr.references ⊆ names := by
  intro c hc
  obtain ⟨hname, hexpr | hexpr⟩ := expr_of_mem_shape hc
  · rw [hexpr]
    exact List.cons_subset.mpr ⟨hcolumns hname, List.nil_subset _⟩
  · rw [hexpr]
    exact List.append_subset.mpr
      ⟨he, List.cons_subset.mpr ⟨hcolumns hname, List.nil_subset _⟩⟩

/-- A row of the type keeps the columns of the type. -/
theorem project_shape {engine : Engine} {row : Row} (h : e.holds engine .native row = true) :
    Row.project engine (model.shape shaping set subtype e) row =
      Row.cut (model.typeColumns subtype) row := by
  have htruth : (e.eval engine .native row).truth = .holds := of_decide_eq_true h
  funext name
  by_cases hname : name ∈ columnNames (model.shape shaping set subtype e)
  · obtain ⟨c, hc, rfl, hfind⟩ := exists_find_of_mem_columnNames hname
    rw [Row.project_of_find hfind, Row.cut_of_mem (columnNames_shape ▸ hname)]
    obtain ⟨-, hexpr | hexpr⟩ := expr_of_mem_shape hc
    · rw [hexpr, Expr.eval]
    · rw [hexpr, Expr.eval, if_pos htruth, Expr.eval]
  · rw [Row.project_of_notMem hname, Row.cut_of_notMem (columnNames_shape ▸ hname)]

end Model

namespace Plan

section

variable {model : Model} {engine : Engine} {tables : String → List Row}

/-! ## Plans that agree on the wanted columns -/

/-- The second plan runs over the tables and means what the first means over entities, on some
columns. -/
structure Resolves (model : Model) (engine : Engine) (tables : String → List Row)
    (columns : List OutputColumn) (p q : Plan) : Prop where
  relation_eq : q.relation = p.relation
  headers_eq : headers (q.outputs (model.tableStore engine tables)) = headers columns
  results_eq : q.results (model.tableStore engine tables) =
    (p.results (model.entityStore engine tables .native)).map (Row.cut (columnNames columns))
  reads_scoped : q.Scoped (model.tableStore engine tables)
  avoids : ∀ name, p.Avoids (model.tableStore engine tables) name →
    q.Avoids (model.tableStore engine tables) name

namespace Resolves

variable {columns : List OutputColumn} {p q : Plan}

/-- A resolved plan has the columns it is to have. -/
theorem names_eq (h : Resolves model engine tables columns p q) :
    q.names (model.tableStore engine tables) = columnNames columns :=
  columnNames_eq_of_headers h.headers_eq

/-- What a caller sees is the same. -/
theorem answers_eq (h : Resolves model engine tables columns p q) :
    q.answers (model.tableStore engine tables) =
      (p.results (model.entityStore engine tables .native)).map
        (Row.shown (visibleNames columns)) := by
  rw [answers, h.results_eq, visibleNames_eq_of_headers h.headers_eq, Outcomes.map_map]
  exact congrArg (p.results (model.entityStore engine tables .native)).map
    (funext fun row => Row.shown_cut (visibleNames_subset columns) row)

/-- What is said of a plan is said of any other with the same rows. -/
theorem of_results_eq (h : Resolves model engine tables columns p q) {r : Plan}
    (hrelation : r.relation = p.relation)
    (hresults : r.results (model.entityStore engine tables .native) =
      p.results (model.entityStore engine tables .native))
    (havoids : ∀ name, r.Avoids (model.tableStore engine tables) name →
      p.Avoids (model.tableStore engine tables) name) :
    Resolves model engine tables columns r q where
  relation_eq := h.relation_eq.trans hrelation.symm
  headers_eq := h.headers_eq
  results_eq := by rw [h.results_eq, hresults]
  reads_scoped := h.reads_scoped
  avoids name hname := h.avoids name (havoids name hname)

/-! Every operator keeps the agreement as long as it reads wanted columns. -/

/-- A filter reads the same columns before and after. -/
protected theorem filter (h : Resolves model engine tables columns p q) {predicate : Expr}
    (hreads : predicate.references ⊆ columnNames columns) :
    Resolves model engine tables columns (filter predicate p) (filter predicate q) where
  relation_eq := h.relation_eq
  headers_eq := h.headers_eq
  results_eq := by
    rw [results, h.results_eq, results]
    exact (Outcomes.filter_map_cut (Expr.holds_cut hreads) _).symm
  reads_scoped := ⟨by rwa [h.names_eq], h.reads_scoped⟩
  avoids := h.avoids

protected theorem sort (h : Resolves model engine tables columns p q) {keys : List SortKey}
    (hreads : ∀ key ∈ keys, key.expr.references ⊆ columnNames columns) :
    Resolves model engine tables columns (sort keys p) (sort keys q) where
  relation_eq := h.relation_eq
  headers_eq := h.headers_eq
  results_eq := by
    rw [results, h.results_eq, results]
    exact (Outcomes.sort_map_cut hreads _).symm
  reads_scoped := ⟨by rwa [h.names_eq], h.reads_scoped⟩
  avoids := h.avoids

/-- The same rows are skipped. -/
protected theorem skip (h : Resolves model engine tables columns p q) (count : UInt64) :
    Resolves model engine tables columns (skip count p) (skip count q) where
  relation_eq := h.relation_eq
  headers_eq := h.headers_eq
  results_eq := by
    rw [results, h.results_eq, results, Outcomes.map_drop]
  reads_scoped := h.reads_scoped
  avoids := h.avoids

protected theorem take (h : Resolves model engine tables columns p q) (count : UInt64) :
    Resolves model engine tables columns (take count p) (take count q) where
  relation_eq := h.relation_eq
  headers_eq := h.headers_eq
  results_eq := by
    rw [results, h.results_eq, results, Outcomes.map_take]
  reads_scoped := h.reads_scoped
  avoids := h.avoids

protected theorem project (h : Resolves model engine tables columns p q)
    {produced : List OutputColumn} (hnodup : (columnNames produced).Nodup)
    (hreads : ∀ c ∈ produced, c.expr.references ⊆ columnNames columns) :
    Resolves model engine tables produced (project produced p) (project produced q) where
  relation_eq := h.relation_eq
  headers_eq := rfl
  results_eq := by
    rw [results, h.results_eq, results, Outcomes.project_map_cut hreads, Outcomes.map_map]
    exact congrArg (p.results (model.entityStore engine tables .native)).map
      (funext fun row => (Row.cut_project engine produced row).symm)
  reads_scoped := ⟨by rwa [h.names_eq], hnodup, h.reads_scoped⟩
  avoids name havoids := ⟨havoids.1, h.avoids name havoids.2⟩

end Resolves

/-! ## Sources -/

/-- The rows of a plan without projections are rows of its entity set. -/
theorem mem_extent_of_mem_results {store : Store} {p : Plan} (hprojection : p.hasProjection = false)
    {rows : List Row} (h : rows ∈ p.results store) :
    ∀ row ∈ rows, row ∈ (store.rows p.relation).map (Row.cut (store.columns p.relation)) := by
  induction p generalizing rows with
  | source relation =>
    obtain ⟨_, rfl, hperm⟩ := h
    exact fun row hrow => hperm.mem_iff.mp hrow
  | project columns p ih => cases hprojection
  | filter predicate p ih | ofType subtype p ih =>
    obtain ⟨xs, hxs, rfl⟩ := h
    exact fun row hrow => ih hprojection hxs row (List.mem_of_mem_filter hrow)
  | sort keys p ih =>
    obtain ⟨xs, hxs, hperm, -⟩ := h
    exact fun row hrow => ih hprojection hxs row (hperm.mem_iff.mp hrow)
  | skip count p ih =>
    obtain ⟨xs, hxs, rfl⟩ := h
    exact fun row hrow => ih hprojection hxs row (List.mem_of_mem_drop hrow)
  | take count p ih =>
    obtain ⟨xs, hxs, rfl⟩ := h
    exact fun row hrow => ih hprojection hxs row (List.mem_of_mem_take hrow)

section Extents

variable {relation : String} {set : EntitySet}

/-- The entities of a set are the rows that its predicate is true of. -/
theorem entityStore_rows_of_some {e : Expr} (hset : model.relation relation = .ok set)
    (h : model.extentPredicate? set = some e) :
    (model.entityStore engine tables .native).rows relation =
      ((model.tableStore engine tables).rows relation).filter (e.holds engine .native) := by
  have hrestricted := Model.isRestricted_of_extentPredicate h
  simp only [Model.entityStore, Model.tableStore, hset, hrestricted, Bool.not_true, Bool.false_or,
    Model.holds_subtreePredicate (Model.subtreePredicate_of_extentPredicate h)]

/-- Without a predicate every row is an entity. -/
theorem entityStore_rows_of_none (hset : model.relation relation = .ok set)
    (h : model.extentPredicate? set = none) :
    (model.entityStore engine tables .native).rows relation =
      (model.tableStore engine tables).rows relation := by
  have hfree : model.isRestricted set = false := by
    rw [← Model.extentPredicate_isSome, h, Option.isSome_none]
  simp only [Model.entityStore, Model.tableStore, hset, hfree, Bool.not_false, Bool.true_or,
    List.filter_true]

/-- A restriction reads columns of its set. -/
theorem references_extentPredicate_subset {e : Expr} (hset : model.relation relation = .ok set)
    (h : model.extentPredicate? set = some e)
    (hscoped : model.extentReads relation ⊆ model.setColumns relation) :
    e.references ⊆ model.setColumns relation := by
  have hreads : model.extentReads relation = model.typeReads set.root := by
    simp only [Model.extentReads, hset, Model.isRestricted_of_extentPredicate h, if_true]
  have hpredicate := Model.subtreePredicate_of_extentPredicate h
  exact List.Subset.trans (Model.references_subtreePredicate_subset hpredicate) (hreads ▸ hscoped)

end Extents

/-- The rows of an entity set as they are resolved are its entities. -/
theorem resolves_source {shaping : Shaping} {outer : Option String} {relation : String} {q : Plan}
    (hscoped : model.extentReads relation ⊆ model.setColumns relation)
    (h : (source relation).resolveUnder model shaping outer = .ok q) :
    Resolves model engine tables ((model.setColumns relation).map .passThrough)
      (source relation) q := by
  have hcut : ((source relation).results (model.entityStore engine tables .native)).map
      (Row.cut (columnNames ((model.setColumns relation).map .passThrough))) =
        (source relation).results (model.entityStore engine tables .native) :=
    Outcomes.map_eq_self fun _ hrows => cut_of_mem_results hrows
  obtain ⟨set, hset, h⟩ := exists_ok_of_bind_eq_ok h
  split at h
  next e he =>
    obtain rfl := Except.ok.inj h
    have hreads := references_extentPredicate_subset hset he hscoped
    refine ⟨rfl, rfl, ?_, ⟨?_, trivial⟩, fun _ havoids => havoids⟩
    · rw [hcut, results, results, results, entityStore_rows_of_some hset he,
        Outcomes.filter_shuffle, Outcomes.filter_singleton, List.filter_map]
      exact congrArg
        (fun rows => Outcomes.shuffle {List.map (Row.cut (model.setColumns relation)) rows})
        (List.filter_congr fun row _ => Expr.holds_cut hreads row)
    · rw [names, outputs, columnNames_passThrough]
      exact hreads
  next hnone =>
    obtain rfl := Except.ok.inj h
    refine ⟨rfl, rfl, ?_, trivial, fun _ havoids => havoids⟩
    rw [hcut, results, results, entityStore_rows_of_none hset hnone]
    rfl

/-! ## Type filters -/

/-- The entity set under a type filter is that of the relation, and there is no projection
between. -/
theorem filteredSet_eq_ok {p : Plan} {subtype : String} {set : EntitySet}
    (h : p.filteredSet model subtype = .ok set) :
    p.hasProjection = false ∧ model.relation p.relation = .ok set := by
  unfold filteredSet at h
  split at h
  next => cases h
  next hprojection => exact ⟨Bool.eq_false_iff.mpr hprojection, h⟩

/-- The plan restricted by the predicate of a type, unless the set is restricted by it anyway. -/
def restrictedBy (model : Model) (set : EntitySet) (predicate : Expr) (p : Plan) : Plan :=
  if model.extentPredicate? set = some predicate then p else filter predicate p

/-- What a type filter becomes. -/
theorem resolveUnder_ofType_eq_ok {shaping : Shaping} {outer : Option String} {subtype : String}
    {p q : Plan} (h : (ofType subtype p).resolveUnder model shaping outer = .ok q) :
    ∃ set predicate input, p.filteredSet model subtype = .ok set ∧
      model.typePredicate set subtype = .ok predicate ∧
      p.resolveUnder model shaping (some subtype) = .ok input ∧
      q = outer.elim
        (project (model.shape shaping set subtype predicate)
          (restrictedBy model set predicate input))
        fun _ => restrictedBy model set predicate input := by
  rw [resolveUnder] at h
  obtain ⟨set, hset, h⟩ := exists_ok_of_bind_eq_ok h
  obtain ⟨predicate, hpredicate, h⟩ := exists_ok_of_bind_eq_ok h
  refine ⟨set, predicate, ?_⟩
  cases outer with
  | none =>
    obtain ⟨input, hinput, h⟩ := exists_ok_of_bind_eq_ok h
    exact ⟨input, hset, hpredicate, hinput, (Except.ok.inj h).symm⟩
  | some outer =>
    simp only at h
    split at h
    · cases h
    obtain ⟨input, hinput, h⟩ := exists_ok_of_bind_eq_ok h
    exact ⟨input, hset, hpredicate, hinput, (Except.ok.inj h).symm⟩

section TypeFilters

variable {shaping : Shaping} {set : EntitySet} {subtype : String} {e : Expr} {p q : Plan}

/-- Where the extent of a set is that of a type, a plan without projections has only rows of it. -/
theorem isOfType_of_mem_results (hprojection : p.hasProjection = false)
    (hset : model.relation p.relation = .ok set) (hextent : model.extentPredicate? set = some e)
    (he : model.subtreePredicate? subtype = some e)
    (hreads : e.references ⊆ model.setColumns p.relation)
    {rows : List Row} (h : rows ∈ p.results (model.entityStore engine tables .native)) :
    ∀ row ∈ rows, model.isOfType engine subtype row = true := by
  intro row hrow
  obtain ⟨entity, hentity, rfl⟩ :=
    List.mem_map.mp (mem_extent_of_mem_results hprojection h row hrow)
  rw [entityStore_rows_of_some hset hextent] at hentity
  rw [← Model.holds_subtreePredicate he]
  exact (Expr.holds_cut hreads entity).trans (List.mem_filter.mp hentity).2

/-- A type filter restricts whole rows. -/
theorem Resolves.ofType
    (h : Resolves model engine tables ((model.setColumns p.relation).map .passThrough) p q)
    (hset : p.filteredSet model subtype = .ok set)
    (hpredicate : model.typePredicate set subtype = .ok e)
    (htype : model.typeReads subtype ⊆ model.setColumns p.relation) :
    Resolves model engine tables ((model.setColumns p.relation).map .passThrough)
      (Plan.ofType subtype p) (restrictedBy model set e q) := by
  obtain ⟨hprojection, hrelation⟩ := filteredSet_eq_ok hset
  have he := Model.subtreePredicate_of_typePredicate hpredicate
  have hreads : e.references ⊆ model.setColumns p.relation :=
    List.Subset.trans (Model.references_subtreePredicate_subset he) htype
  unfold restrictedBy
  split
  next hextent =>
    -- the set is restricted by the same predicate, so that the type filter keeps every row
    refine h.of_results_eq rfl ?_ fun _ havoids => havoids
    exact Outcomes.filter_eq_self fun rows hrows =>
      isOfType_of_mem_results hprojection hrelation hextent he hreads hrows
  next =>
    have hfilter := h.filter (by rwa [columnNames_passThrough])
    refine hfilter.of_results_eq rfl ?_ fun _ havoids => havoids
    exact Outcomes.filter_congr fun _ _ row _ => (Model.holds_subtreePredicate he).symm

/-- Projecting to the columns of the type finishes a type filter. -/
theorem Resolves.shape
    (h : Resolves model engine tables ((model.setColumns p.relation).map .passThrough)
      (Plan.ofType subtype p) q)
    (hpredicate : model.typePredicate set subtype = .ok e)
    (hshown : model.typeColumns subtype ⊆ model.setColumns p.relation)
    (htype : model.typeReads subtype ⊆ model.setColumns p.relation) :
    Resolves model engine tables ((model.typeColumns subtype).map .passThrough)
      (Plan.ofType subtype p) (project (model.shape shaping set subtype e) q) := by
  have he := Model.subtreePredicate_of_typePredicate hpredicate
  have hreads : e.references ⊆ model.setColumns p.relation :=
    List.Subset.trans (Model.references_subtreePredicate_subset he) htype
  have hcolumns : ∀ c ∈ model.shape shaping set subtype e,
      c.expr.references ⊆ model.setColumns p.relation :=
    Model.references_shape_subset hshown hreads
  refine ⟨h.relation_eq, Model.headers_shape, ?_, ⟨?_, ?_, h.reads_scoped⟩,
    fun name havoids => ⟨?_, h.avoids name havoids⟩⟩
  · have hresults := h.results_eq
    rw [columnNames_passThrough] at hresults
    rw [results, hresults, columnNames_passThrough, Outcomes.project_map_cut hcolumns]
    -- every row that is left is of the type
    refine Outcomes.map_congr fun rows hrows row hrow => Model.project_shape ?_
    obtain ⟨xs, -, rfl⟩ := hrows
    exact (Model.holds_subtreePredicate he).trans (List.mem_filter.mp hrow).2
  · rw [h.names_eq, columnNames_passThrough]
    exact hcolumns
  · rw [Model.columnNames_shape]
    exact model.nodup_typeColumns subtype
  · rw [Model.columnNames_shape]
    exact fun hname => havoids.notMem_columns (hshown hname)

/-! ## Plans -/

/-- **Under a type filter** a resolved plan has the whole entities of the plan. -/
theorem resolves_whole {outer : String} (hprojection : p.hasProjection = false)
    (hscoped : p.WholeScoped model) (h : p.resolveUnder model shaping (some outer) = .ok q) :
    Resolves model engine tables ((model.setColumns p.relation).map .passThrough) p q := by
  induction p generalizing outer q with
  | source relation => exact resolves_source hscoped h
  | project columns p ih => cases hprojection
  | filter predicate p ih =>
    obtain ⟨input, hinput, rfl⟩ := exists_ok_of_bind_pure_eq_ok h
    refine (ih hprojection hscoped.2 hinput).filter ?_
    rw [columnNames_passThrough]
    exact hscoped.1
  | sort keys p ih =>
    obtain ⟨input, hinput, rfl⟩ := exists_ok_of_bind_pure_eq_ok h
    refine (ih hprojection hscoped.2 hinput).sort fun key hkey => ?_
    rw [columnNames_passThrough]
    exact hscoped.1 key hkey
  | skip count p ih =>
    obtain ⟨input, hinput, rfl⟩ := exists_ok_of_bind_pure_eq_ok h
    exact (ih hprojection hscoped hinput).skip count
  | take count p ih =>
    obtain ⟨input, hinput, rfl⟩ := exists_ok_of_bind_pure_eq_ok h
    exact (ih hprojection hscoped hinput).take count
  | ofType subtype p ih =>
    obtain ⟨set, e, input, hset, he, hinput, rfl⟩ := resolveUnder_ofType_eq_ok h
    exact (ih hprojection hscoped.2 hinput).ofType hset he hscoped.1

/-- **A resolved plan** has the entities of the plan, on the columns that the plan shows. -/
theorem resolves_of_resolve (hscoped : p.EntityScoped model)
    (h : p.resolve model shaping = .ok q) :
    Resolves model engine tables (p.entityColumns model) p q := by
  unfold resolve at h
  induction p generalizing q with
  | source relation => exact resolves_source hscoped h
  | filter predicate p ih =>
    obtain ⟨input, hinput, rfl⟩ := exists_ok_of_bind_pure_eq_ok h
    exact (ih hscoped.2 hinput).filter hscoped.1
  | project columns p ih =>
    obtain ⟨input, hinput, rfl⟩ := exists_ok_of_bind_pure_eq_ok h
    exact (ih hscoped.2.2 hinput).project hscoped.2.1 hscoped.1
  | sort keys p ih =>
    obtain ⟨input, hinput, rfl⟩ := exists_ok_of_bind_pure_eq_ok h
    exact (ih hscoped.2 hinput).sort hscoped.1
  | skip count p ih =>
    obtain ⟨input, hinput, rfl⟩ := exists_ok_of_bind_pure_eq_ok h
    exact (ih hscoped hinput).skip count
  | take count p ih =>
    obtain ⟨input, hinput, rfl⟩ := exists_ok_of_bind_pure_eq_ok h
    exact (ih hscoped hinput).take count
  | ofType subtype p _ =>
    obtain ⟨set, e, input, hset, he, hinput, rfl⟩ := resolveUnder_ofType_eq_ok h
    obtain ⟨hshown, htype, hinside⟩ := hscoped
    have hwhole : Resolves model engine tables ((model.setColumns p.relation).map .passThrough)
        p input := resolves_whole (filteredSet_eq_ok hset).1 hinside hinput
    exact (hwhole.ofType hset he htype).shape he hshown htype

end TypeFilters

end

end Plan

end EntityQuery
