/-
# Statements without empty clauses

SQL text with an empty select list, an ORDER BY without keys or a membership test without values is
refused by the database.  `Clauses.Filled` says that the clauses of one level of a statement have
none of these.

* `Emission.Emits.filled`: so it is on every level of a statement that comes from a filled plan;
* `Plan.compile_filled`: what is compiled from the text of a pipeline has no empty clause.
-/
import EntityQuery.Proofs.Pipeline.Filled
import EntityQuery.Proofs.Select.Form

namespace EntityQuery

/-! ## Clauses -/

namespace Clauses

/-- There are columns to be seen, keys for a row number and for a cut, and values in every
membership test. -/
structure Filled (clauses : Clauses) : Prop where
  columns : ColumnsFilled clauses.columns
  rowNumber : ∀ keys ∈ clauses.rowNumber, KeysFilled keys
  top : clauses.top.isSome = true → clauses.orderBy ≠ []
  orderBy : ∀ key ∈ clauses.orderBy, key.expr.Filled
  predicate : ∀ e ∈ clauses.predicate, e.Filled

namespace Filled

variable {clauses : Clauses} {keys : List SortKey}

/-- What a column is defined as, by one of the clauses' columns or by itself. -/
theorem definition (h : clauses.Filled) (name : String) : (clauses.definition name).Filled :=
  filled_definition h.columns.filled name

/-- An added filter is joined with the one that is there, in terms of the columns below. -/
theorem addFilter (h : clauses.Filled) {e : Expr} (he : e.Filled) :
    (clauses.addFilter e).Filled := by
  refine { h with predicate := fun predicate hpredicate => ?_ }
  have hadded := he.substitute h.definition
  unfold Clauses.addFilter at hpredicate
  cases hexisting : clauses.predicate with
  | none =>
    rw [hexisting] at hpredicate
    obtain rfl := Option.some.inj hpredicate
    exact hadded
  | some existing =>
    rw [hexisting] at hpredicate
    obtain rfl := Option.some.inj hpredicate
    exact Expr.filled_binary.mpr ⟨h.predicate existing hexisting, hadded⟩

/-- New columns are expressed by the old ones and take their place. -/
theorem setColumns (h : clauses.Filled) {columns : List OutputColumn}
    (hcolumns : ColumnsFilled columns) : (clauses.setColumns columns).Filled :=
  { h with columns := hcolumns.substitute h.definition }

/-- An order takes the place of the one before it and has a key for a limit to cut by. -/
theorem setOrder (h : clauses.Filled) (hkeys : KeysFilled keys) :
    (clauses.setOrder keys).Filled := by
  have hinlined : KeysFilled (clauses.inlineKeys keys) := hkeys.substitute h.definition
  exact { h with top := fun _ => hinlined.some, orderBy := hinlined.filled }

/-- A limit brings its order with it. -/
theorem limit (h : clauses.Filled) (hkeys : KeysFilled keys) (count : UInt64) :
    (Emission.limit count keys clauses).Filled := by
  have hinlined : KeysFilled (clauses.inlineKeys keys) := hkeys.substitute h.definition
  exact { h.setOrder hkeys with top := fun _ => hinlined.some }

/-- The order is given up for the row number, so the rows must not be cut. -/
theorem setRowNumber (h : clauses.Filled) (hkeys : KeysFilled keys) (htop : clauses.top = none) :
    (clauses.setRowNumber keys).Filled := by
  refine { h with
    rowNumber := fun numbering hnumbering => ?_, top := fun hsome => ?_, orderBy := nofun }
  · obtain rfl := Option.some.inj hnumbering
    exact hkeys.substitute h.definition
  · have hcut : clauses.top.isSome = true := hsome
    rw [htop] at hcut
    cases hcut

/-- Keys that a cut depends on are not dropped. -/
theorem dropOrder (h : clauses.Filled) : clauses.dropOrder.Filled := by
  unfold Clauses.dropOrder
  split
  next htop =>
    refine { h with top := fun hsome => ?_, orderBy := nofun }
    have hcut : clauses.top.isSome = true := hsome
    rw [Option.isNone_iff_eq_none.mp htop] at hcut
    cases hcut
  next => exact h

/-- Numbered rows are kept by a comparison with the row number. -/
theorem keepBeyond (h : clauses.Filled) (count : UInt64) :
    (Emission.keepBeyond count clauses).Filled := by
  refine { h with predicate := fun predicate hpredicate => ?_ }
  obtain rfl := Option.some.inj hpredicate
  exact Expr.filled_binary.mpr ⟨Expr.filled_column _, Expr.filled_literal _⟩

end Filled

end Clauses

/-! ## Statements -/

namespace Select

/-- No level of the statement has an empty clause. -/
def Filled (statement : Select) : Prop :=
  ∀ level ∈ statement.levels, level.clauses.Filled

namespace Filled

variable {s t : Select}

theorem outermost (h : s.Filled) : s.clauses.Filled :=
  h s List.mem_cons_self

theorem map (h : s.Filled) {f : Clauses → Clauses} (hf : (f s.clauses).Filled) :
    (s.map f).Filled := by
  obtain ⟨-, hbelow⟩ := List.forall_mem_cons.mp h
  refine (forall_levels_map f s).mpr ⟨?_, hbelow⟩
  rw [clauses_map]
  exact hf

open Emission in
/-- A statement around another one hands on its columns. -/
theorem derived (h : s.Filled) (kind : StatementKind) (item : String) :
    (derived kind s item).Filled := by
  have hcolumns : ColumnsFilled (Emission.derived kind s item).clauses.columns := by
    refine ⟨?_, fun c hc => ?_⟩
    · rw [visibleNames_eq_of_headers (headers_derived kind s item)]
      exact h.outermost.columns.visible
    · obtain ⟨old, -, rfl⟩ := List.mem_map.mp hc
      exact Expr.filled_column _
  refine List.forall_mem_cons.mpr ⟨⟨hcolumns, nofun, nofun, nofun, nofun⟩, ?_⟩
  exact h.map h.outermost.dropOrder

/-- A statement opened for more clauses is filled, and nothing cuts its rows yet. -/
theorem opened (h : s.Filled) (ht : Emission.Opened s t) : t.Filled ∧ t.clauses.top = none := by
  cases ht with
  | itself hopen =>
    refine ⟨h, ?_⟩
    simp only [Clauses.acceptsProjection, Bool.and_eq_true, Option.isNone_iff_eq_none] at hopen
    exact hopen.1
  | around kind s item => exact ⟨h.derived kind item, rfl⟩

end Filled

end Select

/-! ## Emitted statements -/

/-- **A statement of a filled plan has no empty clause**, on any level. -/
theorem Emission.Emits.filled {model : Model} {plan : Plan} {s : Select} (h : Emits model plan s)
    (hroots : model.RootsDeclared) (hplan : plan.Filled) : s.Filled := by
  induction h with
  | @source relation set hset item =>
    have hcolumns : ColumnsFilled ((model.relationColumns set).map .passThrough) := by
      refine ⟨?_, fun c hc => ?_⟩
      · rw [Model.visibleNames_passThrough]
        exact Model.relationColumns_ne_nil hroots hset
      · obtain ⟨name, -, rfl⟩ := List.mem_map.mp hc
        exact Expr.filled_column name
    intro level hlevel
    obtain rfl := List.mem_singleton.mp hlevel
    exact ⟨hcolumns, nofun, nofun, nofun, nofun⟩
  | filter predicate _ ht ih =>
    obtain ⟨hopened, -⟩ := (ih hplan.2).opened ht
    exact hopened.map (hopened.outermost.addFilter hplan.1)
  | project columns _ ht ih =>
    obtain ⟨hopened, -⟩ := (ih hplan.2).opened ht
    exact hopened.map (hopened.outermost.setColumns hplan.1)
  | sort keys _ ht ih =>
    obtain ⟨hopened, -⟩ := (ih hplan.2).opened ht
    exact hopened.map (hopened.outermost.setOrder hplan.1)
  | sorted _ _ ih => exact ih hplan.2
  | @skip count keys p s t _ ht item ih =>
    obtain ⟨hopened, htop⟩ := (ih hplan.2).opened ht
    have hnumbered : (t.map (·.setRowNumber keys)).Filled :=
      hopened.map (hopened.outermost.setRowNumber hplan.1 htop)
    have houter := hnumbered.derived .skip item
    exact houter.map (houter.outermost.keepBeyond count)
  | take count keys _ ht ih =>
    obtain ⟨hopened, -⟩ := (ih hplan.2).opened ht
    exact hopened.map (hopened.outermost.limit hplan.1 count)
  | takeSkip count _ ih =>
    have hinput := ih hplan
    exact hinput.map (hinput.outermost.limit hplan.1 count)

/-! ## Main statement -/

namespace Plan

/-- **SQL from pipelines has no empty clause.**  Where every root type has a property, the text of a
plan that was read from a pipeline and compiled is that of a statement in which, on every level,
there are columns to be seen, keys for a row number and for a cut, and values in every membership
test. -/
theorem compile_filled (model : Model) (options : Options) (text : String) (plan : Plan)
    (sql : String) (hroots : model.RootsDeclared) (hparse : Plan.parse text = .ok plan)
    (hcompile : plan.compile model options = .ok sql) :
    ∃ prepared statement, plan.prepare model options = .ok prepared ∧
      prepared.statement model = .ok statement ∧ sql = statement.sql ∧
      ∀ level ∈ statement.levels, level.clauses.Filled := by
  obtain ⟨prepared, hprepare, -⟩ := exists_ok_of_bind_eq_ok hcompile
  obtain ⟨statement, hstatement, hsql⟩ := compile_eq_ok hprepare hcompile
  have hprepared := filled_of_prepare hroots hprepare (filled_of_parse hparse)
  refine ⟨prepared, statement, hprepare, hstatement, hsql, ?_⟩
  exact (emits_of_statement hstatement).filled hroots hprepared

/-- A plan with a type filter, a page and a projection. -/
theorem compile_filled_dogNames :
    Plan.parse
        ("Animals | oftype Dog | where Owner <> 'Ada' | order by Id desc | skip 1 | take 2" ++
          " | select Name") = .ok dogNames ∧
      ∃ sql prepared statement, dogNames.compile animalsModel {} = .ok sql ∧
        dogNames.prepare animalsModel {} = .ok prepared ∧
        prepared.statement animalsModel = .ok statement ∧ sql = statement.sql ∧
        ∀ level ∈ statement.levels, level.clauses.Filled := by
  have hroots : animalsModel.RootsDeclared := by
    intro set hset
    obtain rfl := List.mem_singleton.mp hset
    exact ⟨_, rfl, by decide⟩
  have hparse : Plan.parse
      ("Animals | oftype Dog | where Owner <> 'Ada' | order by Id desc | skip 1 | take 2" ++
        " | select Name") = .ok dogNames := by
    decide +kernel
  have hcompile : dogNames.compile animalsModel {} = .ok _ := rfl
  obtain ⟨prepared, statement, hfilled⟩ :=
    compile_filled animalsModel {} _ dogNames _ hroots hparse hcompile
  exact ⟨hparse, _, prepared, statement, hcompile, hfilled⟩

end Plan

end EntityQuery
