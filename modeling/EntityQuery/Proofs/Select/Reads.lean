/-
# Every column that a statement reads is there

Predicates and keys are stated over other columns again and again on their way into a statement,
and a name without a definition would be handed on as it is.  `Clauses.ReadsWithin` says what the
clauses of a statement may read, and `Select.ReadsAvailable` that on every level of nesting they
read what the FROM item of the level has to offer.

* `Emission.Emits.readsAvailable`: so it is for every statement of a plan in which each operator
  reads what its input produces;
* `Plan.scoped_of_prepare`: preparing a plan leaves it in that state;
* `Plan.compile_reads_available`: no column that a compiled plan reads is missing.
-/
import EntityQuery.Proofs.Compiler
import EntityQuery.Proofs.Select.Form

namespace EntityQuery

/-! ## Clauses -/

namespace Clauses

/-- The columns, the WHERE clause, the ORDER BY clause and the keys of the row number read no column
but the named ones. -/
structure ReadsWithin (names : List String) (clauses : Clauses) : Prop where
  columns : ∀ c ∈ clauses.columns, c.expr.references ⊆ names
  predicate : ∀ e ∈ clauses.predicate, e.references ⊆ names
  orderBy : ∀ key ∈ clauses.orderBy, key.expr.references ⊆ names
  rowNumber : ∀ keys ∈ clauses.rowNumber, ∀ key ∈ keys, key.expr.references ⊆ names

namespace ReadsWithin

variable {names : List String} {clauses : Clauses}

/-- What is stated over the output reads, over the FROM item, what the columns read. -/
theorem references_inline (h : clauses.ReadsWithin names) {e : Expr}
    (he : e.references ⊆ columnNames clauses.columns) :
    (e.substitute clauses.definition).references ⊆ names :=
  references_inline_subset h.columns he

/-- Inlined keys read what the columns they name are computed from. -/
theorem references_inlineKeys (h : clauses.ReadsWithin names) {keys : List SortKey}
    (hkeys : ∀ key ∈ keys, key.expr.references ⊆ columnNames clauses.columns) :
    ∀ key ∈ clauses.inlineKeys keys, key.expr.references ⊆ names := by
  intro key hkey
  obtain ⟨old, hold, rfl⟩ := List.mem_map.mp hkey
  exact h.references_inline (hkeys old hold)

/-- An added filter is inlined. -/
theorem addFilter (h : clauses.ReadsWithin names) {e : Expr}
    (he : e.references ⊆ columnNames clauses.columns) :
    (clauses.addFilter e).ReadsWithin names := by
  refine { h with predicate := fun predicate hpredicate => ?_ }
  have hadded := h.references_inline he
  unfold Clauses.addFilter at hpredicate
  cases hexisting : clauses.predicate with
  | none =>
    rw [hexisting] at hpredicate
    obtain rfl := Option.some.inj hpredicate
    exact hadded
  | some existing =>
    rw [hexisting] at hpredicate
    obtain rfl := Option.some.inj hpredicate
    exact List.append_subset.mpr ⟨h.predicate existing hexisting, hadded⟩

theorem setColumns (h : clauses.ReadsWithin names) {columns : List OutputColumn}
    (hcolumns : ∀ c ∈ columns, c.expr.references ⊆ columnNames clauses.columns) :
    (clauses.setColumns columns).ReadsWithin names := by
  refine { h with columns := fun c hc => ?_ }
  obtain ⟨old, hold, rfl⟩ := List.mem_map.mp hc
  exact h.references_inline (hcolumns old hold)

theorem setOrder (h : clauses.ReadsWithin names) {keys : List SortKey}
    (hkeys : ∀ key ∈ keys, key.expr.references ⊆ columnNames clauses.columns) :
    (clauses.setOrder keys).ReadsWithin names :=
  { h with orderBy := h.references_inlineKeys hkeys }

theorem limit (h : clauses.ReadsWithin names) {keys : List SortKey}
    (hkeys : ∀ key ∈ keys, key.expr.references ⊆ columnNames clauses.columns) (count : UInt64) :
    (Emission.limit count keys clauses).ReadsWithin names :=
  { h.setOrder hkeys with }

theorem setRowNumber (h : clauses.ReadsWithin names) {keys : List SortKey}
    (hkeys : ∀ key ∈ keys, key.expr.references ⊆ columnNames clauses.columns) :
    (clauses.setRowNumber keys).ReadsWithin names := by
  refine { h with orderBy := nofun, rowNumber := fun numbering hnumbering => ?_ }
  obtain rfl := Option.some.inj hnumbering
  exact h.references_inlineKeys hkeys

theorem dropOrder (h : clauses.ReadsWithin names) : clauses.dropOrder.ReadsWithin names := by
  unfold Clauses.dropOrder
  split
  · exact { h with orderBy := nofun }
  · exact h

/-- Numbered rows are kept by their number, which has to be available. -/
theorem keepBeyond (h : clauses.ReadsWithin names) (hnumber : rowNumberColumn ∈ names)
    (count : UInt64) : (Emission.keepBeyond count clauses).ReadsWithin names := by
  refine { h with predicate := fun predicate hpredicate => ?_ }
  obtain rfl := Option.some.inj hpredicate
  exact List.cons_subset.mpr ⟨hnumber, List.nil_subset _⟩

end ReadsWithin

end Clauses

/-! ## Statements -/

namespace Select

/-- The columns of the FROM item, where the table of the innermost statement has certain columns. -/
def available (base : List String) : Select → List String
  | ofTable _ _ _ => base
  | ofQuery _ query _ => query.outputNames

@[simp] theorem available_map (base : List String) (f : Clauses → Clauses) (statement : Select) :
    (statement.map f).available base = statement.available base := by
  cases statement <;> rfl

/-- On every level the clauses read columns of the FROM item. -/
def ReadsAvailable (base : List String) (statement : Select) : Prop :=
  ∀ level ∈ statement.levels, level.clauses.ReadsWithin (level.available base)

namespace ReadsAvailable

variable {base : List String} {s : Select}

theorem outermost (h : s.ReadsAvailable base) : s.clauses.ReadsWithin (s.available base) :=
  h s List.mem_cons_self

theorem map (h : s.ReadsAvailable base) {f : Clauses → Clauses}
    (hf : (f s.clauses).ReadsWithin (s.available base)) : (s.map f).ReadsAvailable base := by
  obtain ⟨-, hbelow⟩ := List.forall_mem_cons.mp h
  refine (forall_levels_map f s).mpr ⟨?_, hbelow⟩
  rw [clauses_map, available_map]
  exact hf

open Emission in
/-- A statement around another one reads what that one shows. -/
theorem derived (h : s.ReadsAvailable base) (kind : StatementKind) (item : String) :
    (derived kind s item).ReadsAvailable base := by
  refine List.forall_mem_cons.mpr ⟨⟨fun c hc => ?_, nofun, nofun, nofun⟩,
    h.map h.outermost.dropOrder⟩
  obtain ⟨old, hold, rfl⟩ := List.mem_map.mp hc
  have hname : old.name ∈ (s.map Clauses.dropOrder).outputNames := by
    rw [outputNames, clauses_map, Clauses.columns_dropOrder]
    exact List.mem_append_left _ (List.mem_map_of_mem hold)
  exact List.cons_subset.mpr ⟨hname, List.nil_subset _⟩

/-- A statement that was opened reads what is available. -/
theorem opened (h : s.ReadsAvailable base) {t : Select} (ht : Emission.Opened s t) :
    t.ReadsAvailable base := by
  cases ht with
  | itself => exact h
  | around kind s item => exact h.derived kind item

end ReadsAvailable

end Select

/-! ## Emitted statements -/

namespace Emission

open Select

variable {engine : Engine} {tables : String → List Row} {model : Model} {plan : Plan} {s : Select}
  {set : EntitySet}

/-- The row number of a skipping stage can be read around it. -/
theorem rowNumber_mem_available (base : List String) (keys : List SortKey) (t : Select)
    (item : String) :
    rowNumberColumn ∈ (derived .skip (t.map (·.setRowNumber keys)) item).available base := by
  have hnumbered : ((t.map (·.setRowNumber keys)).map Clauses.dropOrder).clauses.rowNumber.isSome =
      true := by
    rw [clauses_map, Clauses.rowNumber_dropOrder, clauses_map]
    rfl
  show rowNumberColumn ∈ ((t.map (·.setRowNumber keys)).map Clauses.dropOrder).outputNames
  rw [outputNames, if_pos hnumbered]
  exact List.mem_append_right _ (List.mem_singleton.mpr rfl)

/-- **A statement of a scoped plan reads what is there**, on every level. -/
theorem Emits.readsAvailable (h : Emits model plan s)
    (hscoped : plan.Scoped (model.tableStore engine tables))
    (hset : model.relation plan.relation = .ok set) :
    s.ReadsAvailable (model.relationColumns set) := by
  -- what an operator reads is produced by the statement that it is merged into
  have hnames : ∀ {p : Plan} {s t : Select}, Emits model p s → Opened s t →
      p.names (model.tableStore engine tables) = columnNames t.clauses.columns := by
    intro p s t hp ht
    rw [columnNames_eq_of_headers ht.headers_eq]
    exact (hp.columnNames_eq engine tables).symm
  induction h with
  | @source relation found hfound item =>
    obtain rfl : found = set := Except.ok.inj (hfound.symm.trans hset)
    intro level hlevel
    obtain rfl := List.mem_singleton.mp hlevel
    refine ⟨fun c hc => ?_, nofun, nofun, nofun⟩
    obtain ⟨name, hname, rfl⟩ := List.mem_map.mp hc
    exact List.cons_subset.mpr ⟨hname, List.nil_subset _⟩
  | filter predicate hp ht ih =>
    obtain ⟨hreads, hinput⟩ := hscoped
    have hopened := (ih hinput hset).opened ht
    exact hopened.map (hopened.outermost.addFilter (hnames hp ht ▸ hreads))
  | project columns hp ht ih =>
    obtain ⟨hreads, -, hinput⟩ := hscoped
    have hopened := (ih hinput hset).opened ht
    exact hopened.map (hopened.outermost.setColumns (hnames hp ht ▸ hreads))
  | sort keys hp ht ih =>
    obtain ⟨hreads, hinput⟩ := hscoped
    have hopened := (ih hinput hset).opened ht
    exact hopened.map (hopened.outermost.setOrder (hnames hp ht ▸ hreads))
  | sorted hp _ ih => exact ih hscoped.2 hset
  | @skip count keys p s t hp ht item ih =>
    obtain ⟨hreads, hinput⟩ := hscoped
    have hopened := (ih hinput hset).opened ht
    have hnumbered : (t.map (·.setRowNumber keys)).ReadsAvailable (model.relationColumns set) :=
      hopened.map (hopened.outermost.setRowNumber (hnames hp ht ▸ hreads))
    have houter := hnumbered.derived .skip item
    exact houter.map (houter.outermost.keepBeyond (rowNumber_mem_available _ keys _ item) count)
  | take count keys hp ht ih =>
    obtain ⟨hreads, hinput⟩ := hscoped
    have hopened := (ih hinput hset).opened ht
    exact hopened.map (hopened.outermost.limit (hnames hp ht ▸ hreads) count)
  | takeSkip count hp ih =>
    have hinput := ih hscoped hset
    refine hinput.map (hinput.outermost.limit ?_ count)
    rw [hp.columnNames_eq engine tables]
    exact hscoped.1

end Emission

/-! ## Main statement -/

namespace Plan

variable {model : Model} {options : Options} {plan prepared : Plan}

/-- Preparing leaves a plan in which every operator reads what its input produces.  The contents of
the tables do not matter, so that they may be empty. -/
theorem scoped_of_prepare (hscoped : plan.EntityScoped model)
    (h : plan.prepare model options = .ok prepared) :
    prepared.relation = plan.relation ∧
      prepared.Scoped (model.tableStore Engine.standard fun _ => []) := by
  obtain ⟨resolved, hresolve, hlift⟩ := prepare_eq_ok h
  obtain ⟨-, rfl, -⟩ := lift_eq_ok_iff.mp hlift
  have hresolves : Resolves model Engine.standard (fun _ => [])
      ((plan.adjust options.nulls).entityColumns model) (plan.adjust options.nulls) resolved :=
    resolves_of_resolve (entityScoped_adjust hscoped) hresolve
  have hempty : ((model.tableStore Engine.standard fun _ => []).rows resolved.relation).length <
      UInt64.size := by
    simp only [Model.tableStore]
    split <;> decide
  obtain ⟨-, hlifted, hsame⟩ :=
    widened_of_steps (sweepUpTo_steps options.sweeps resolved) hresolves.reads_scoped hempty
  exact ⟨hsame.trans (hresolves.relation_eq.trans relation_adjust), hlifted⟩

/-- **No column is missing.**  Where every operator of a plan reads what its input shows and the
entity set has the columns of the types asked for and those that tell them apart, the text of a
compiled plan is that of a statement over the table of the entity set, in which the columns, the
WHERE clause, the ORDER BY clause and the keys of the row number of every level read what the
derived table below it shows, or over the table itself the columns of the entity set. -/
theorem compile_reads_available (model : Model) (options : Options) (plan : Plan) (sql : String)
    (hscoped : plan.EntityScoped model) (hcompile : plan.compile model options = .ok sql) :
    ∃ set prepared statement, model.relation plan.relation = .ok set ∧
      plan.prepare model options = .ok prepared ∧ prepared.statement model = .ok statement ∧
      sql = statement.sql ∧ statement.table = set.table ∧
      ∀ level ∈ statement.levels,
        level.clauses.ReadsWithin (level.available (model.relationColumns set)) := by
  obtain ⟨prepared, hprepare, -⟩ := exists_ok_of_bind_eq_ok hcompile
  obtain ⟨statement, hstatement, hsql⟩ := compile_eq_ok hprepare hcompile
  obtain ⟨hrelation, hprepared⟩ := scoped_of_prepare hscoped hprepare
  have hemits := emits_of_statement hstatement
  obtain ⟨set, hset, htable⟩ := hemits.reads_table
  refine ⟨set, prepared, statement, hrelation ▸ hset, hprepare, hstatement, hsql, htable, ?_⟩
  exact hemits.readsAvailable hprepared hset

/-- A page of the names of dogs: a projection with a key carried along, a number per row and a
condition on that number. -/
theorem compile_reads_available_dogNames :
    dogNames.EntityScoped animalsModel ∧ ∃ sql, dogNames.compile animalsModel {} = .ok sql ∧
      ∃ set prepared statement, animalsModel.relation dogNames.relation = .ok set ∧
        dogNames.prepare animalsModel {} = .ok prepared ∧
        prepared.statement animalsModel = .ok statement ∧ sql = statement.sql ∧
        statement.table = set.table ∧
        ∀ level ∈ statement.levels,
          level.clauses.ReadsWithin (level.available (animalsModel.relationColumns set)) :=
  ⟨by decide, _, rfl, compile_reads_available animalsModel {} dogNames _ (by decide) rfl⟩

end Plan

end EntityQuery
