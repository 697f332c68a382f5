/-
# The form of a statement

`Emits model plan s` says which statements a plan may become, operator by operator and without the
numbering of aliases: every operator changes the clauses of the statement of its input, or of a
derived table around it (`Opened`).  What holds of every emitted statement is then proved by
induction on this relation.

* `Plan.emits_of_statement`: a statement that the emitter returns is one of these;
* `Emits.headers_eq`: it has the columns that the plan produces;
* `Emits.reads_table`: at the bottom it reads the table of the entity set.

`Select.levels` lists a statement with all derived tables in it.
-/
import EntityQuery.Proofs.Select.Emission

namespace EntityQuery

/-! ## Levels of nesting -/

namespace Select

/-- The statements that a statement reads as derived tables, the outermost first. -/
def derivedTables : Select → List Select
  | ofTable _ _ _ => []
  | ofQuery _ query _ => query :: query.derivedTables

/-- A statement and the derived tables in it, the outermost first. -/
def levels (statement : Select) : List Select :=
  statement :: statement.derivedTables

/-- The table that is read by the innermost statement. -/
def table : Select → String
  | ofTable _ table _ => table
  | ofQuery _ query _ => query.table

/-- The names that a statement shows as a derived table: those of its columns, then that of the row
number if it produces one. -/
def outputNames (statement : Select) : List String :=
  columnNames statement.clauses.columns ++
    if statement.clauses.rowNumber.isSome then [rowNumberColumn] else []

variable (f : Clauses → Clauses) (statement : Select)

@[simp] theorem derivedTables_map : (statement.map f).derivedTables = statement.derivedTables := by
  cases statement <;> rfl

@[simp] theorem table_map : (statement.map f).table = statement.table := by
  cases statement <;> rfl

/-- Only the outermost level is touched when the clauses of a statement change. -/
theorem forall_levels_map {P : Select → Prop} :
    (∀ level ∈ (statement.map f).levels, P level) ↔
      P (statement.map f) ∧ ∀ level ∈ statement.derivedTables, P level := by
  rw [levels, derivedTables_map, List.forall_mem_cons]

end Select

/-! ## Emitted statements -/

namespace Emission

open Select

/-- The statement itself, if its columns can be replaced, or a derived table around it. -/
inductive Opened : Select → Select → Prop where
  | itself {s : Select} (hopen : s.clauses.acceptsProjection = true) : Opened s s
  | around (kind : StatementKind) (s : Select) (item : String) : Opened s (derived kind s item)

/-- The clauses that keep the rows whose number exceeds a count. -/
def keepBeyond (count : UInt64) (clauses : Clauses) : Clauses :=
  { clauses with predicate := some (beyond (min count.toNat Int64.maxValue.toInt.toNat)) }

/-- The first rows in the order of some keys over the output. -/
def limit (count : UInt64) (keys : List SortKey) (clauses : Clauses) : Clauses :=
  (clauses.setOrder keys).setTop count

/-- The statements that a plan may become. -/
inductive Emits (model : Model) : Plan → Select → Prop where
  | source {relation : String} {set : EntitySet} (hset : model.relation relation = .ok set)
      (item : String) :
      Emits model (.source relation) (.ofTable
        { kind := .extent, columns := (model.relationColumns set).map .passThrough }
        set.table item)
  | filter (predicate : Expr) {p : Plan} {s t : Select} (hp : Emits model p s)
      (ht : Opened s t) : Emits model (.filter predicate p) (t.map (·.addFilter predicate))
  | project (columns : List OutputColumn) {p : Plan} {s t : Select} (hp : Emits model p s)
      (ht : Opened s t) : Emits model (.project columns p) (t.map (·.setColumns columns))
  | sort (keys : List SortKey) {p : Plan} {s t : Select} (hp : Emits model p s)
      (ht : Opened s t) : Emits model (.sort keys p) (t.map (·.setOrder keys))
  /-- The rows were cut in the order of the keys. -/
  | sorted {keys : List SortKey} {p : Plan} {s : Select} (hp : Emits model p s)
      (horder : s.clauses.orderBy = s.clauses.inlineKeys keys) : Emits model (.sort keys p) s
  | skip (count : UInt64) (keys : List SortKey) {p : Plan} {s t : Select} (hp : Emits model p s)
      (ht : Opened s t) (item : String) :
      Emits model (.skip count (.sort keys p))
        ((derived .skip (t.map (·.setRowNumber keys)) item).map (keepBeyond count))
  | take (count : UInt64) (keys : List SortKey) {p : Plan} {s t : Select} (hp : Emits model p s)
      (ht : Opened s t) :
      Emits model (.take count (.sort keys p)) (t.map (limit count keys))
  | takeSkip (count : UInt64) {offset : UInt64} {keys : List SortKey} {p : Plan} {s : Select}
      (hp : Emits model (.skip offset (.sort keys p)) s) :
      Emits model (.take count (.skip offset (.sort keys p))) (s.map (limit count keys))

section Ensures

variable {model : Model} {s : Select}

theorem ensures_opened_wrap (kind : StatementKind) : Ensures (wrap kind s) (Opened s) :=
  (ensures_wrap kind s).mono fun _ ⟨item, ht⟩ => ht ▸ .around kind s item

/-- A statement that can be projected is opened. -/
theorem ensures_opened_projectable : Ensures (projectable s) (Opened s) := by
  unfold projectable
  split
  next hopen => exact Ensures.pure (.itself hopen)
  next => exact ensures_opened_wrap .project

/-- A source is emitted as a statement over its table. -/
theorem emits_extent (relation : String) :
    Ensures (extent model relation) (Emits model (.source relation)) := by
  unfold extent
  cases hset : model.relation relation with
  | error fault => exact Ensures.bind (P := fun _ => False) Ensures.throw fun _ h => h.elim
  | ok set =>
    refine Ensures.bind (P := (· = set)) (Ensures.pure rfl) fun found hfound => ?_
    subst hfound
    exact Ensures.bind (P := fun _ => True) (Ensures.of_forall fun _ => trivial) fun item _ =>
      Ensures.pure (.source hset item)

/-- A filter is emitted into its input's statement or around it. -/
theorem emits_filter {p : Plan} (hp : Emits model p s) (predicate : Expr) :
    Ensures (filter predicate s) (Emits model (.filter predicate p)) := by
  unfold filter
  split
  next haccepts =>
    have hopen : s.clauses.acceptsProjection = true := by
      simp only [Clauses.acceptsFilter, Bool.and_eq_true] at haccepts
      simp [Clauses.acceptsProjection, haccepts]
    exact Ensures.pure (.filter predicate hp (.itself hopen))
  next =>
    exact Ensures.bind (ensures_opened_wrap .filter) fun t ht =>
      Ensures.pure (.filter predicate hp ht)

theorem emits_sort {p : Plan} (hp : Emits model p s) (keys : List SortKey) :
    Ensures (sort keys s) (Emits model (.sort keys p)) := by
  unfold sort
  split
  next hopen => exact Ensures.pure (.sort keys hp (.itself hopen))
  next =>
    split
    next hsorted =>
      simp only [Bool.and_eq_true, decide_eq_true_eq] at hsorted
      exact Ensures.pure (.sorted hp hsorted.2)
    next =>
      exact Ensures.bind (ensures_opened_wrap .project) fun t ht =>
        Ensures.pure (.sort keys hp ht)

/-- A window is emitted as two statements, one in the other. -/
theorem emits_window {p : Plan} (hp : Emits model p s) (count : UInt64) (keys : List SortKey) :
    Ensures (window count keys s) (Emits model (.skip count (.sort keys p))) := by
  refine Ensures.bind ensures_opened_projectable fun t ht => ?_
  refine Ensures.bind (ensures_wrap .skip _) fun outer houter => Ensures.pure ?_
  obtain ⟨item, rfl⟩ := houter
  exact .skip count keys hp ht item

/-- **The emitter keeps to the relation.** -/
theorem emits_statement (model : Model) (plan : Plan) :
    Ensures (statement model plan) (Emits model plan) := by
  fun_induction statement model plan with
  | case1 relation => exact emits_extent relation
  | case2 predicate p ih => exact Ensures.bind ih fun s hs => emits_filter hs predicate
  | case3 columns p ih =>
    refine Ensures.bind ih fun s hs => ?_
    exact Ensures.bind ensures_opened_projectable fun t ht =>
      Ensures.pure (.project columns hs ht)
  | case4 keys p ih => exact Ensures.bind ih fun s hs => emits_sort hs keys
  | case5 count keys p ih => exact Ensures.bind ih fun s hs => emits_window hs count keys
  | case7 count keys p ih =>
    refine Ensures.bind ih fun s hs => ?_
    exact Ensures.bind ensures_opened_projectable fun t ht =>
      Ensures.pure (.take count keys hs ht)
  | case8 count offset keys p ih =>
    refine Ensures.bind ih fun s hs => ?_
    exact Ensures.bind (emits_window hs offset keys) fun t ht => Ensures.pure (.takeSkip count ht)
  -- a type filter, and a cut that does not stand on its sort, have no statement
  | case6 | case9 | case10 | case11 => exact Ensures.throw

end Ensures

end Emission

/-- A statement has a form that its plan allows, whatever aliases were used before. -/
theorem Plan.emits_of_statementFrom {model : Model} {counters : AliasCounters} {plan : Plan}
    {s : Select} (h : (plan.statementFrom model counters).1 = .ok s) :
    Emission.Emits model plan s :=
  Emission.emits_statement model plan counters s _ (Prod.ext h rfl)

/-- A statement has a form that its plan allows. -/
theorem Plan.emits_of_statement {model : Model} {plan : Plan} {s : Select}
    (h : plan.statement model = .ok s) : Emission.Emits model plan s :=
  emits_of_statementFrom h

/-! ## Columns and table -/

namespace Emission

open Select

section Opened

variable {s t : Select}

/-- Opening a statement keeps its columns. -/
theorem Opened.headers_eq (h : Opened s t) :
    headers t.clauses.columns = headers s.clauses.columns := by
  cases h with
  | itself => rfl
  | around kind s item => exact headers_derived kind s item

theorem Opened.table_eq (h : Opened s t) : t.table = s.table := by
  cases h with
  | itself => rfl
  | around kind s item => exact Select.table_map _ s

end Opened

section Emits

variable {model : Model} {plan : Plan} {s : Select}

/-- **A statement has the columns that its plan produces.** -/
theorem Emits.headers_eq (h : Emits model plan s) (engine : Engine) (tables : String → List Row) :
    headers s.clauses.columns = headers (plan.outputs (model.tableStore engine tables)) := by
  induction h with
  | source hset item =>
    simp only [Plan.outputs, Model.tableStore, Model.setColumns, hset, Select.clauses]
  | filter _ _ ht ih | sort _ _ ht ih | take _ _ _ ht ih =>
    rw [clauses_map]
    exact ht.headers_eq.trans ih
  | project columns _ ht ih =>
    rw [clauses_map]
    exact headers_map_substitute _ columns
  | sorted _ _ ih => exact ih
  | skip _ _ _ ht item ih =>
    rw [clauses_map]
    refine (headers_derived .skip _ item).trans ?_
    rw [clauses_map]
    exact ht.headers_eq.trans ih
  | takeSkip _ _ ih =>
    rw [clauses_map]
    exact ih

/-- The columns of a statement are those of its plan. -/
theorem Emits.columnNames_eq (h : Emits model plan s) (engine : Engine)
    (tables : String → List Row) :
    columnNames s.clauses.columns = plan.names (model.tableStore engine tables) :=
  columnNames_eq_of_headers (h.headers_eq engine tables)

/-- At the bottom a statement reads the table of its entity set. -/
theorem Emits.reads_table (h : Emits model plan s) :
    ∃ set, model.relation plan.relation = .ok set ∧ s.table = set.table := by
  induction h with
  | source hset item => exact ⟨_, hset, rfl⟩
  | filter _ _ ht ih | project _ _ ht ih | sort _ _ ht ih | take _ _ _ ht ih =>
    obtain ⟨set, hset, htable⟩ := ih
    refine ⟨set, hset, ?_⟩
    rw [Select.table_map, ht.table_eq, htable]
  | sorted _ _ ih => exact ih
  | skip _ _ _ ht item ih =>
    obtain ⟨set, hset, htable⟩ := ih
    refine ⟨set, hset, ?_⟩
    rw [Select.table_map, derived, Select.table, Select.table_map, Select.table_map, ht.table_eq,
      htable]
  | takeSkip _ _ ih =>
    obtain ⟨set, hset, htable⟩ := ih
    exact ⟨set, hset, (Select.table_map _ _).trans htable⟩

end Emits

end Emission

end EntityQuery
