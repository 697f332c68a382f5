/-
# Statements mean what their plans mean

The emitter works from the bottom of a plan to its top, and each of its operations either changes
the clauses of a statement or wraps it.  `Select.Yields` is what it keeps: the statement has the
columns of the plan, numbers no rows, and every sequence it may answer with has the rows of some
result of the plan.  Their order is lost wherever a statement is wrapped, so it is kept for the
outermost operator only: a statement of a sort answers in the order of its keys.  That is enough for
a plan whose sorts are lifted, which has its sort outermost or is in no order at all.

* `Plan.statement_sound`: every answer of the statement of a canonical plan is an answer of the
  plan.
-/
import EntityQuery.Proofs.Entities
import EntityQuery.Proofs.Ordering.Canonical
import EntityQuery.Proofs.Select.Meaning
import EntityQuery.Select.Emit
import Mathlib.Algebra.Group.Nat.Defs

namespace EntityQuery

namespace Emission

/-! ## Results of an emission -/

section Ensures

variable {α β : Type} {P : α → Prop} {Q : β → Prop}

/-- Whatever aliases are in use, every result has the property. -/
def Ensures (x : Emission α) (P : α → Prop) : Prop :=
  ∀ counters result next, x.run counters = (.ok result, next) → P result

theorem Ensures.of_forall {x : Emission α} (h : ∀ a, P a) : Ensures x P := fun _ a _ _ => h a

theorem Ensures.mono {x : Emission α} {P' : α → Prop} (hx : Ensures x P) (h : ∀ a, P a → P' a) :
    Ensures x P' :=
  fun counters a next hrun => h a (hx counters a next hrun)

theorem Ensures.pure {a : α} (h : P a) : Ensures (pure a) P := by
  rintro counters result next hrun
  cases hrun
  exact h

theorem Ensures.throw {fault : Fault} : Ensures (throw fault) P := by
  rintro counters result next hrun
  cases hrun

theorem run_bind (x : Emission α) (f : α → Emission β) (counters : AliasCounters) :
    (x >>= f).run counters =
      match x.run counters with
      | (.ok a, middle) => (f a).run middle
      | (.error fault, middle) => (.error fault, middle) := by
  show ExceptT.bindCont f (x.run counters).1 (x.run counters).2 = _
  rcases x.run counters with ⟨_ | a, middle⟩ <;> rfl

/-- What the first part ensures may be used for the second one. -/
theorem Ensures.bind {x : Emission α} {f : α → Emission β} (hx : Ensures x P)
    (hf : ∀ a, P a → Ensures (f a) Q) : Ensures (x >>= f) Q := by
  intro counters result next hrun
  rw [run_bind] at hrun
  split at hrun
  next a middle hrun' => exact hf a (hx counters a middle hrun') middle result next hrun
  next => cases hrun

end Ensures

end Emission

/-! ## What a statement yields -/

namespace Select

variable (engine : Engine) (tables : String → List Row)

/-- The rows of a statement before it sorts and cuts them. -/
def rows (statement : Select) : Outcomes Row :=
  statement.clauses.rows engine (statement.items engine tables)

/-- The statement has certain columns and no row number, and its rows are those of some sequence in
`R`. -/
structure Yields (columns : List OutputColumn) (R : Outcomes Row) (statement : Select) : Prop where
  headers_eq : headers statement.clauses.columns = headers columns
  rowNumber_eq : statement.clauses.rowNumber = none
  outcomes_subset : statement.outcomes engine tables ⊆ R.shuffle

variable {engine tables} {columns : List OutputColumn} {R : Outcomes Row} {statement : Select}

/-- The columns of a statement have the names it is to have. -/
theorem Yields.names_eq (h : Yields engine tables columns R statement) :
    columnNames statement.clauses.columns = columnNames columns :=
  columnNames_eq_of_headers h.headers_eq

/-- A statement that neither cuts nor numbers yields what its rows are. -/
theorem Yields.of_rows (hheaders : headers statement.clauses.columns = headers columns)
    (hopen : statement.clauses.acceptsProjection = true)
    (hrows : statement.rows engine tables ⊆ R.shuffle) :
    Yields engine tables columns R statement where
  headers_eq := hheaders
  rowNumber_eq := (Clauses.acceptsProjection_iff.mp hopen).2
  outcomes_subset := by
    rw [outcomes_eq]
    exact (Clauses.outcomes_subset_rows hopen).trans hrows

/-- The rows of a statement that was not cut are the rows it is to yield, in any order. -/
theorem Yields.rows_subset (h : Yields engine tables columns R statement)
    (hopen : statement.clauses.acceptsProjection = true) :
    statement.rows engine tables ⊆ R.shuffle := by
  have hrows : statement.rows engine tables ⊆ (statement.outcomes engine tables).shuffle := by
    rw [outcomes_eq]
    exact Clauses.rows_subset_shuffle hopen
  rw [← Outcomes.shuffle_shuffle R]
  exact hrows.trans (Outcomes.shuffle_mono h.outcomes_subset)

end Select

namespace Emission

open Select

variable {engine : Engine} {tables : String → List Row} {columns : List OutputColumn}
  {R : Outcomes Row} {s : Select}

/-! ## Derived tables -/

/-- A statement around another one that hands on its columns. -/
def derived (kind : StatementKind) (inner : Select) (item : String) : Select :=
  .ofQuery
    { kind, columns := inner.clauses.columns.map fun c => { c with expr := .column c.name } }
    (inner.map Clauses.dropOrder) item

/-- Wrapping gives a statement around the inner one. -/
theorem ensures_wrap (kind : StatementKind) (inner : Select) :
    Ensures (wrap kind inner) fun t => ∃ item, t = derived kind inner item :=
  Ensures.bind (P := fun _ => True) (Ensures.of_forall fun _ => trivial)
    fun item _ => Ensures.pure ⟨item, rfl⟩

/-- A statement around another one has its columns. -/
theorem headers_derived (kind : StatementKind) (inner : Select) (item : String) :
    headers (derived kind inner item).clauses.columns = headers inner.clauses.columns := by
  simp only [derived, Select.clauses, headers, List.map_map]
  rfl

/-- The rows of a derived table under a WHERE clause: those of its statement, in any order, cut to
the columns that are handed on. -/
theorem rows_derived (kind : StatementKind) (inner : Select) (item : String)
    (predicate : Option Expr) :
    ((derived kind inner item).map fun clauses => { clauses with predicate }).rows engine tables =
      (((inner.map Clauses.dropOrder).outcomes engine tables).shuffle.filter
        fun row => predicate.all (·.holds engine .native row)).map
          (Row.cut (columnNames inner.clauses.columns)) := by
  have hproject : Row.project engine (derived kind inner item).clauses.columns =
      Row.cut (columnNames inner.clauses.columns) := by
    funext row
    rw [Row.project_of_columns, columnNames_eq_of_headers (headers_derived kind inner item)]
    intro c hc
    obtain ⟨d, -, rfl⟩ := List.mem_map.mp hc
    rfl
  rw [← hproject]
  rfl

/-- Wrapping keeps the rows of a statement. -/
theorem ensures_wrap_yields (h : Yields engine tables columns R s) (kind : StatementKind) :
    Ensures (wrap kind s) fun t =>
      Yields engine tables columns R t ∧ t.clauses.acceptsProjection = true := by
  intro counters t next hrun
  obtain ⟨item, rfl⟩ := ensures_wrap kind s counters t next hrun
  refine ⟨Yields.of_rows ((headers_derived kind s item).trans h.headers_eq) rfl ?_, rfl⟩
  have hcut : ∀ xs ∈ (s.map Clauses.dropOrder).outcomes engine tables, ∀ row ∈ xs,
      Row.cut (columnNames s.clauses.columns) row = row := by
    rw [outcomes_map]
    intro xs hxs
    rw [← Clauses.columns_dropOrder]
    exact Clauses.cut_of_mem_outcomes (Clauses.rowNumber_dropOrder.trans h.rowNumber_eq) hxs
  have hsame : (derived kind s item).rows engine tables =
      ((s.map Clauses.dropOrder).outcomes engine tables).shuffle := by
    refine (rows_derived kind s item none).trans ?_
    simp only [Option.all_none]
    rw [Outcomes.filter_eq_self fun _ _ _ _ => rfl, Outcomes.map_shuffle, Outcomes.map_eq_self hcut]
  rw [hsame, outcomes_map, ← Outcomes.shuffle_shuffle R, ← Outcomes.shuffle_shuffle R]
  refine Outcomes.shuffle_mono ((Clauses.outcomes_dropOrder_subset h.rowNumber_eq).trans ?_)
  rw [← outcomes_eq]
  exact Outcomes.shuffle_mono h.outcomes_subset

/-- A statement is opened for a projection without a change to what it yields. -/
theorem ensures_projectable (h : Yields engine tables columns R s) :
    Ensures (projectable s) fun t =>
      Yields engine tables columns R t ∧ t.clauses.acceptsProjection = true := by
  unfold projectable
  split
  next hopen => exact Ensures.pure ⟨h, hopen⟩
  next => exact ensures_wrap_yields h .project

/-! ## Operators -/

/-- A filter tests the rows of its input. -/
theorem ensures_filter (h : Yields engine tables columns R s) {predicate : Expr}
    (hreads : predicate.references ⊆ columnNames columns) :
    Ensures (filter predicate s)
      (Yields engine tables columns (R.filter fun row => predicate.holds engine .native row)) := by
  -- what happens to a statement that has a place for the condition
  have hadd : ∀ t : Select, Yields engine tables columns R t → t.clauses.acceptsProjection = true →
      Yields engine tables columns (R.filter fun row => predicate.holds engine .native row)
        (t.map (·.addFilter predicate)) := by
    intro t ht hopen
    refine Yields.of_rows (by simpa [Clauses.addFilter] using ht.headers_eq)
      (by simpa [Clauses.addFilter, Clauses.acceptsProjection] using hopen) ?_
    rw [Select.rows, clauses_map, items_map, Clauses.rows_addFilter (ht.names_eq ▸ hreads),
      ← Outcomes.filter_shuffle]
    exact Outcomes.filter_mono _ (ht.rows_subset hopen)
  unfold filter
  split
  next haccepts =>
    have hopen : s.clauses.acceptsProjection = true := by
      simp only [Clauses.acceptsFilter, Bool.and_eq_true] at haccepts
      simp [Clauses.acceptsProjection, haccepts]
    exact Ensures.pure (hadd s h hopen)
  next =>
    exact Ensures.bind (ensures_wrap_yields h .filter) fun t ht =>
      Ensures.pure (hadd t ht.1 ht.2)

/-- A projection changes the rows of its input. -/
theorem ensures_project (h : Yields engine tables columns R s) {outer : List OutputColumn}
    (hreads : ∀ c ∈ outer, c.expr.references ⊆ columnNames columns) :
    Ensures (project outer s)
      (Yields engine tables outer (R.map (Row.project engine outer))) := by
  refine Ensures.bind (ensures_projectable h) fun t ht => Ensures.pure ?_
  obtain ⟨ht, hopen⟩ := ht
  refine Yields.of_rows ?_ (by simpa [Clauses.setColumns, Clauses.acceptsProjection] using hopen) ?_
  · rw [clauses_map]
    exact headers_map_substitute _ outer
  · rw [Select.rows, clauses_map, items_map, Clauses.rows_setColumns (ht.names_eq ▸ hreads),
      ← Outcomes.map_shuffle]
    exact Outcomes.map_mono _ (ht.rows_subset hopen)

/-- Keys in the ORDER BY clause of a statement that neither cuts nor numbers. -/
theorem outcomes_setOrder_subset (h : Yields engine tables columns R s)
    (hopen : s.clauses.acceptsProjection = true) {keys : List SortKey}
    (hreads : ∀ key ∈ keys, key.expr.references ⊆ columnNames columns) :
    (s.map (·.setOrder keys)).outcomes engine tables ⊆ R.sort (Precedes engine keys) := by
  rw [outcomes_map, Clauses.outcomes_setOrder hopen (h.names_eq ▸ hreads),
    ← Outcomes.sort_shuffle R]
  exact Outcomes.sort_mono (h.rows_subset hopen)

/-- The statement of a sort answers in its order. -/
theorem ensures_sort (h : Yields engine tables columns R s) {keys : List SortKey}
    (hreads : ∀ key ∈ keys, key.expr.references ⊆ columnNames columns) :
    Ensures (sort keys s) fun t =>
      Yields engine tables columns (R.sort (Precedes engine keys)) t ∧
        t.outcomes engine tables ⊆ R.sort (Precedes engine keys) := by
  have hset : ∀ t : Select, Yields engine tables columns R t → t.clauses.acceptsProjection = true →
      Yields engine tables columns (R.sort (Precedes engine keys)) (t.map (·.setOrder keys)) ∧
        (t.map (·.setOrder keys)).outcomes engine tables ⊆ R.sort (Precedes engine keys) := by
    intro t ht hopen
    have hsubset := outcomes_setOrder_subset ht hopen hreads
    refine ⟨⟨?_, ?_, hsubset.trans (Outcomes.subset_shuffle _)⟩, hsubset⟩
    · simpa [Clauses.setOrder] using ht.headers_eq
    · simpa [Clauses.setOrder] using ht.rowNumber_eq
  unfold sort
  split
  next hopen => exact Ensures.pure (hset s h hopen)
  next =>
    split
    next hsorted =>
      -- the rows were cut in this order already, so that they are in it
      have horder : s.clauses.orderBy = s.clauses.inlineKeys keys := by
        simp only [Bool.and_eq_true, decide_eq_true_eq] at hsorted
        exact hsorted.2
      have hsubset : s.outcomes engine tables ⊆ R.sort (Precedes engine keys) := by
        intro xs hxs
        obtain ⟨ys, hys, hperm⟩ := h.outcomes_subset hxs
        rw [outcomes_eq] at hxs
        exact ⟨ys, hys, hperm, Clauses.pairwise_of_mem_outcomes h.rowNumber_eq
          (h.names_eq ▸ hreads) horder hxs⟩
      exact Ensures.pure ⟨⟨h.headers_eq, h.rowNumber_eq, hsubset.trans (Outcomes.subset_shuffle _)⟩,
        hsubset⟩
    next =>
      exact Ensures.bind (ensures_wrap_yields h .project) fun t ht =>
        Ensures.pure (hset t ht.1 ht.2)

/-- The first rows in the order of some keys. -/
theorem yields_limit (h : Yields engine tables columns R s)
    (hopen : s.clauses.acceptsProjection = true) {keys : List SortKey}
    (hreads : ∀ key ∈ keys, key.expr.references ⊆ columnNames columns) (count : UInt64) :
    Yields engine tables columns ((R.sort (Precedes engine keys)).take count.toNat)
      (s.map fun clauses => (clauses.setOrder keys).setTop count) where
  headers_eq := by simpa [Clauses.setOrder, Clauses.setTop] using h.headers_eq
  rowNumber_eq := by simpa [Clauses.setOrder, Clauses.setTop] using h.rowNumber_eq
  outcomes_subset := by
    rw [outcomes_map, Clauses.outcomes_setOrder_setTop hopen (h.names_eq ▸ hreads),
      ← Outcomes.sort_shuffle R]
    exact (Outcomes.take_mono _ (Outcomes.sort_mono (h.rows_subset hopen))).trans
      (Outcomes.subset_shuffle _)

/-! ## Windows -/

/-- The condition that the row number of a skipping stage exceeds an offset. -/
def beyond (offset : ℕ) : Expr :=
  .binary .gt (.column rowNumberColumn) (.literal (.int (Int64.ofNat offset)))

open Clauses in
/-- Numbers below the greatest word compare as they are. -/
theorem holds_rowNumber_gt {offset : ℕ} (hoffset : offset < 2 ^ 63) {row : Row × ℕ}
    (hrow : row.2 < 2 ^ 63) :
    (beyond offset).holds engine .native (withNumber row) = decide (offset < row.2) := by
  have hcompare : engine.order (.int (Int64.ofNat row.2)) (.int (Int64.ofNat offset)) = .gt ↔
      offset < row.2 := by
    rw [engine.order_int, Int64.toInt_ofNat_of_lt hrow, Int64.toInt_ofNat_of_lt hoffset,
      Int.compare_eq_gt]
    omega
  simp [beyond, Expr.holds, Expr.truth, Expr.eval, Engine.binary, Engine.comparison, withNumber,
    Value.isNull, Op.accepts, hcompare]

open Clauses in
/-- The rows with a number beyond the offset, without it, are those behind the first ones. -/
theorem map_cut_filter_number {names : List String} (hname : rowNumberColumn ∉ names)
    {S : Outcomes Row} (hcut : ∀ xs ∈ S, ∀ row ∈ xs, Row.cut names row = row)
    (hlength : ∀ xs ∈ S, xs.length < 2 ^ 63) {offset : ℕ} (hoffset : offset < 2 ^ 63) :
    ((S.number.map withNumber).filter fun row => (beyond offset).holds engine .native row).map
      (Row.cut names) = S.drop offset := by
  have hwithNumber : Row.cut names ∘ withNumber = Row.cut names ∘ Prod.fst := by
    funext row
    refine Row.cut_congr fun name hn => ?_
    exact Function.update_of_ne (ne_of_mem_of_not_mem hn hname) _ _
  have hkept : S.number.filter
      ((fun row => (beyond offset).holds engine .native row) ∘ withNumber) =
        S.number.filter fun row => offset < row.2 := by
    refine Outcomes.filter_congr fun zs hzs row hrow => ?_
    obtain ⟨xs, hxs, hle⟩ := Outcomes.le_length_of_mem_number hzs hrow
    exact holds_rowNumber_gt hoffset (Nat.lt_of_le_of_lt hle (hlength xs hxs))
  rw [Outcomes.filter_map, hkept, Outcomes.map_map, hwithNumber, ← Outcomes.map_map,
    Outcomes.filter_number]
  refine Outcomes.map_eq_self ?_
  rintro _ ⟨xs, hxs, rfl⟩ row hrow
  exact hcut xs hxs row (List.mem_of_mem_drop hrow)

/-- Numbering the rows of a statement and keeping those beyond an offset skips the first rows. -/
theorem rows_skipping (hopen : s.clauses.acceptsProjection = true) {keys : List SortKey}
    (hreads : ∀ key ∈ keys, key.expr.references ⊆ columnNames s.clauses.columns)
    (hname : rowNumberColumn ∉ columnNames s.clauses.columns)
    (hlength : ∀ xs ∈ s.rows engine tables, xs.length < 2 ^ 63) {offset : ℕ}
    (hoffset : offset < 2 ^ 63) (item : String) :
    ((derived .skip (s.map (·.setRowNumber keys)) item).map fun clauses =>
        { clauses with predicate := some (beyond offset) }).rows engine tables =
      (((s.rows engine tables).sort (Precedes engine keys)).drop offset).shuffle := by
  have hlength' : ∀ xs ∈ (s.rows engine tables).sort (Precedes engine keys),
      xs.length < 2 ^ 63 := by
    rintro xs ⟨ys, hys, hperm, -⟩
    rw [hperm.length_eq]
    exact hlength ys hys
  have hcut : ∀ xs ∈ (s.rows engine tables).sort (Precedes engine keys), ∀ row ∈ xs,
      Row.cut (columnNames s.clauses.columns) row = row := by
    rintro xs ⟨_, ⟨zs, -, rfl⟩, hperm, -⟩ row hrow
    obtain ⟨r, -, rfl⟩ := List.mem_map.mp (hperm.mem_iff.mp hrow)
    exact Row.cut_project engine _ r
  have hinner : ((s.map (·.setRowNumber keys)).map Clauses.dropOrder).outcomes engine tables =
      (((s.rows engine tables).sort (Precedes engine keys)).number.map
        Clauses.withNumber).shuffle := by
    rw [outcomes_map, clauses_map, items_map, Clauses.dropOrder_setRowNumber]
    exact Clauses.outcomes_setRowNumber hopen hreads
  have hcolumns : (s.map (·.setRowNumber keys)).clauses.columns = s.clauses.columns := by
    rw [clauses_map]
    rfl
  rw [rows_derived, hinner, hcolumns, Outcomes.shuffle_shuffle, Outcomes.filter_shuffle,
    Outcomes.map_shuffle]
  exact congrArg Outcomes.shuffle (map_cut_filter_number hname hcut hlength' hoffset)

/-- A count beyond the greatest row number skips as many rows as that number: all of them. -/
theorem drop_clamped (hlength : ∀ xs ∈ R, xs.length < 2 ^ 63) (count : ℕ) :
    R.drop (min count Int64.maxValue.toInt.toNat) = R.drop count := by
  refine Outcomes.drop_congr fun xs hxs => ?_
  have hlt := hlength xs hxs
  have hmax : Int64.maxValue.toInt.toNat = 2 ^ 63 - 1 := by decide
  omega

/-- The rows behind the first ones in the order of some keys. -/
theorem ensures_window (h : Yields engine tables columns R s)
    (hname : rowNumberColumn ∉ columnNames columns) (hlength : ∀ xs ∈ R, xs.length < 2 ^ 63)
    {keys : List SortKey} (hreads : ∀ key ∈ keys, key.expr.references ⊆ columnNames columns)
    (count : UInt64) :
    Ensures (window count keys s) fun t =>
      Yields engine tables columns ((R.sort (Precedes engine keys)).drop count.toNat) t ∧
        t.clauses.acceptsProjection = true := by
  refine Ensures.bind (ensures_projectable h) fun t ht => ?_
  obtain ⟨ht, hopen⟩ := ht
  refine Ensures.bind (ensures_wrap .skip _) fun outer houter => Ensures.pure ?_
  obtain ⟨item, rfl⟩ := houter
  refine ⟨Yields.of_rows ?_ rfl ?_, rfl⟩
  · rw [clauses_map]
    refine (headers_derived .skip _ item).trans ?_
    simpa [Clauses.setRowNumber] using ht.headers_eq
  have hshuffled : ∀ xs ∈ R.shuffle, xs.length < 2 ^ 63 := by
    rintro xs ⟨ys, hys, hperm⟩
    rw [hperm.length_eq]
    exact hlength ys hys
  have hoffset : min count.toNat Int64.maxValue.toInt.toNat < 2 ^ 63 :=
    Nat.lt_of_le_of_lt (Nat.min_le_right _ _) (by decide)
  have hrows := rows_skipping hopen (ht.names_eq ▸ hreads) (ht.names_eq ▸ hname)
    (fun xs hxs => hshuffled xs (ht.rows_subset hopen hxs)) hoffset item
  refine hrows.subset.trans (Outcomes.shuffle_mono ?_)
  rw [← drop_clamped (fun xs hxs => hshuffled xs (Outcomes.sort_subset_shuffle R hxs)),
    ← Outcomes.sort_shuffle R]
  exact Outcomes.drop_mono _ (Outcomes.sort_mono (ht.rows_subset hopen))

/-! ## Plans -/

/-- All rows of an entity set. -/
theorem ensures_extent (model : Model) (relation : String) :
    Ensures (extent model relation) (Yields engine tables
      ((Plan.source relation).outputs (model.tableStore engine tables))
      ((Plan.source relation).results (model.tableStore engine tables))) := by
  unfold extent
  cases hset : model.relation relation with
  | error fault => exact Ensures.bind (P := fun _ => False) Ensures.throw fun _ h => h.elim
  | ok set =>
    refine Ensures.bind (P := (· = set)) (Ensures.pure rfl) fun found hfound => ?_
    subst hfound
    refine Ensures.bind (P := fun _ => True) (Ensures.of_forall fun _ => trivial) fun item _ =>
      Ensures.pure (Yields.of_rows ?_ rfl ?_)
    · simp only [Plan.outputs, Model.tableStore, Model.setColumns, hset, Select.clauses]
    · have hproject : Row.project engine
          ((model.relationColumns found).map OutputColumn.passThrough) =
            Row.cut (model.relationColumns found) :=
        funext (Row.project_passThrough engine _)
      rw [Select.rows, Clauses.rows_of_predicate rfl]
      simp only [Select.clauses, Select.items, hproject, Plan.results, Model.tableStore,
        Model.setColumns, hset]
      rw [Outcomes.map_shuffle, Outcomes.shuffle_shuffle]
      exact (congrArg Outcomes.shuffle Set.image_singleton).subset

/-- The statement has the columns and rows of the plan over the tables of a model, and if the plan
is a sort, then also its order. -/
structure Realizes (engine : Engine) (tables : String → List Row) (model : Model) (plan : Plan)
    (s : Select) : Prop extends
    Yields engine tables (plan.outputs (model.tableStore engine tables))
      (plan.results (model.tableStore engine tables)) s
    where
  ordered_subset : plan.isSort = true →
    s.outcomes engine tables ⊆ plan.results (model.tableStore engine tables)

/-- Of a plan that is no sort only the rows count. -/
theorem Ensures.realizes {x : Emission Select} {model : Model} {plan : Plan}
    (hx : Ensures x (Yields engine tables (plan.outputs (model.tableStore engine tables))
      (plan.results (model.tableStore engine tables)))) (hsort : plan.isSort = false) :
    Ensures x (Realizes engine tables model plan) :=
  hx.mono fun _ h => ⟨h, fun hs => by rw [hsort] at hs; cases hs⟩

/-- **The statement of a plan has its rows**, and that of a sort is in its order. -/
theorem ensures_statement (model : Model) (plan : Plan)
    (hscoped : plan.Scoped (model.tableStore engine tables))
    (havoids : plan.Avoids (model.tableStore engine tables) rowNumberColumn)
    (hrows : ((model.tableStore engine tables).rows plan.relation).length < 2 ^ 63) :
    Ensures (statement model plan) (Realizes engine tables model plan) := by
  have hlength : ∀ {p : Plan}, ((model.tableStore engine tables).rows p.relation).length < 2 ^ 63 →
      ∀ xs ∈ p.results (model.tableStore engine tables), xs.length < 2 ^ 63 :=
    fun hp xs hxs => Nat.lt_of_le_of_lt (Plan.length_le_of_mem_results hxs) hp
  fun_induction statement model plan with
  | case1 relation => exact (ensures_extent model relation).realizes rfl
  | case2 predicate p ih =>
    obtain ⟨hreads, hp⟩ := hscoped
    refine Ensures.realizes ?_ rfl
    exact Ensures.bind (ih hp havoids hrows) fun s hs => ensures_filter hs.toYields hreads
  | case3 columns p ih =>
    obtain ⟨hreads, -, hp⟩ := hscoped
    refine Ensures.realizes ?_ rfl
    exact Ensures.bind (ih hp havoids.2 hrows) fun s hs => ensures_project hs.toYields hreads
  | case4 keys p ih =>
    obtain ⟨hreads, hp⟩ := hscoped
    refine Ensures.bind (ih hp havoids hrows) fun s hs => ?_
    exact (ensures_sort hs.toYields hreads).mono fun t ht => ⟨ht.1, fun _ => ht.2⟩
  | case5 count keys p ih =>
    obtain ⟨hreads, hp⟩ := hscoped
    refine Ensures.realizes ?_ rfl
    refine Ensures.bind (ih hp havoids hrows) fun s hs => ?_
    exact (ensures_window hs.toYields havoids.notMem_names (hlength hrows) hreads count).mono
      fun t ht => ht.1
  | case7 count keys p ih =>
    obtain ⟨hreads, hp⟩ := hscoped
    refine Ensures.realizes ?_ rfl
    refine Ensures.bind (ih hp havoids hrows) fun s hs => ?_
    refine Ensures.bind (ensures_projectable hs.toYields) fun t ht => Ensures.pure ?_
    exact yields_limit ht.1 ht.2 hreads count
  | case8 count offset keys p ih =>
    obtain ⟨hreads, hp⟩ := hscoped
    refine Ensures.realizes ?_ rfl
    refine Ensures.bind (ih hp havoids hrows) fun s hs => ?_
    refine Ensures.bind
      (ensures_window hs.toYields havoids.notMem_names (hlength hrows) hreads offset)
      fun t ht => Ensures.pure ?_
    have hlimit := yields_limit ht.1 ht.2 hreads count
    rw [Outcomes.sort_drop_sort] at hlimit
    exact hlimit
  -- a type filter, and a cut that does not stand on its sort, have no statement
  | case6 | case9 | case10 | case11 => exact Ensures.throw

end Emission

namespace Plan

/-! ## Canonical plans -/

/-- A plan whose cuts stand on their sorts is in order wherever it is cut. -/
theorem checkOrdered_of_checkCanonical {plan : Plan} (h : plan.checkCanonical = .ok ()) :
    plan.checkOrdered = .ok () := by
  induction plan with
  | source relation => rfl
  | filter _ p ih | project _ p ih | sort _ p ih | ofType _ p ih => exact ih h
  | skip count p ih =>
    rw [checkCanonical] at h
    split at h
    next hsort =>
      refine checkOrdered_skip.mpr ⟨?_, ih h⟩
      cases p <;> simp_all [isSort, orderSource]
    next => cases h
  | take count p ih =>
    rw [checkCanonical] at h
    split at h
    next hkeys =>
      obtain ⟨keys, hkeys⟩ := Option.isSome_iff_exists.mp hkeys
      have hsource : (take count p).orderSource = some keys := orderSource_of_truncationKeys hkeys
      rw [orderSource] at hsource
      exact checkOrdered_take.mpr ⟨by rw [hsource]; rfl, ih h⟩
    next => cases h

/-- A plan in no order has its rows in any order. -/
theorem shuffle_results {store : Store} {plan : Plan} (hordered : plan.checkOrdered = .ok ())
    (hnone : plan.orderSource = none) : (plan.results store).shuffle = plan.results store := by
  induction plan with
  | source relation => exact Outcomes.shuffle_shuffle _
  | filter predicate p ih =>
    rw [results, ← Outcomes.filter_shuffle, ih hordered hnone]
  | project columns p ih =>
    rw [results, ← Outcomes.map_shuffle, ih hordered hnone]
  | ofType subtype p ih =>
    rw [results, ← Outcomes.filter_shuffle, ih hordered hnone]
  | sort keys p ih => cases hnone
  | skip count p ih =>
    have hsome := (checkOrdered_skip.mp hordered).1
    rw [show p.orderSource = none from hnone] at hsome
    cases hsome
  | take count p ih =>
    have hsome := (checkOrdered_take.mp hordered).1
    rw [show p.orderSource = none from hnone] at hsome
    cases hsome

section Soundness

variable {engine : Engine} {tables : String → List Row} {model : Model} {plan : Plan} {s : Select}

/-- The statement of a settled canonical plan has its columns, and only rows that the plan may
answer with. -/
theorem answers_statement_subset (hscoped : plan.Scoped (model.tableStore engine tables))
    (havoids : plan.Avoids (model.tableStore engine tables) rowNumberColumn)
    (hrows : ((model.tableStore engine tables).rows plan.relation).length < 2 ^ 63)
    (hsettled : Settled .needsOrder plan) (hcanonical : plan.checkCanonical = .ok ())
    (h : plan.statement model = .ok s) :
    visibleNames s.clauses.columns = visibleNames (plan.outputs (model.tableStore engine tables)) ∧
      s.answers engine tables ⊆ plan.answers (model.tableStore engine tables) := by
  have hrealizes : Emission.Realizes engine tables model plan s :=
    Emission.ensures_statement model plan hscoped havoids hrows AliasCounters.initial s _
      (Prod.ext h rfl)
  have hordered := checkOrdered_of_checkCanonical hcanonical
  have hsubset : s.outcomes engine tables ⊆ plan.results (model.tableStore engine tables) := by
    cases hsource : plan.orderSource with
    | none =>
      rw [← shuffle_results hordered hsource]
      exact hrealizes.outcomes_subset
    | some keys =>
      exact hrealizes.ordered_subset (isSort_of_settled hsettled hordered (by rw [hsource]; rfl))
  have hvisible := visibleNames_eq_of_headers hrealizes.headers_eq
  refine ⟨hvisible, ?_⟩
  rw [Select.answers, answers, hvisible]
  exact Outcomes.map_mono _ hsubset

end Soundness

/-! ## Main statement -/

/-- **Emission is sound.**  The statement of a plan to which no rule of lifting applies and whose
cuts stand on their sorts has the visible columns of the plan, in the same order, and whatever it
answers is an answer of the plan; and it does answer. -/
theorem statement_sound (engine : Engine) (tables : String → List Row) (model : Model) (plan : Plan)
    (statement : Select) (hscoped : plan.Scoped (model.tableStore engine tables))
    (havoids : plan.Avoids (model.tableStore engine tables) rowNumberColumn)
    (hrows : ((model.tableStore engine tables).rows plan.relation).length < 2 ^ 63)
    (hsettled : (plan.sweep .needsOrder).2 = false) (hcanonical : plan.checkCanonical = .ok ())
    (hstatement : plan.statement model = .ok statement) :
    visibleNames statement.clauses.columns =
        visibleNames (plan.outputs (model.tableStore engine tables)) ∧
      statement.answers engine tables ⊆ plan.answers (model.tableStore engine tables) ∧
      (statement.answers engine tables).Nonempty := by
  obtain ⟨hvisible, hsubset⟩ :=
    answers_statement_subset hscoped havoids hrows hsettled hcanonical hstatement
  exact ⟨hvisible, hsubset, statement.answers_nonempty engine tables⟩

/-- A model of owners in one table. -/
def ownersModel : Model where
  sets := [{ name := "Owners", table := "dbo.Owners", root := "Owner" }]
  types := [{ name := "Owner", properties := [⟨"Id", "Id"⟩, ⟨"Name", "Name"⟩] }]

/-- The second page of the named owners, with the number they are sorted by carried along. -/
def secondPage : Plan :=
  let keys := [⟨.column "Id", .desc⟩]
  let columns := [.passThrough "Name", { name := "Id", expr := .column "Id", hidden := true }]
  sort keys (filter (.isNotNull (.column "Name"))
    (take 2 (skip 2 (sort keys (project columns (source "Owners"))))))

/-- A filter over a page, with a column that is not seen. -/
theorem statement_sound_secondPage :
    let tables := fun _ => [fun _ => Value.int 1, fun _ => Value.null]
    let store := ownersModel.tableStore Engine.standard tables
    ∃ statement, secondPage.statement ownersModel = .ok statement ∧ secondPage.Scoped store ∧
      secondPage.Avoids store rowNumberColumn ∧
      (store.rows secondPage.relation).length < 2 ^ 63 ∧
      (secondPage.sweep .needsOrder).2 = false ∧ secondPage.checkCanonical = .ok () ∧
      visibleNames statement.clauses.columns = visibleNames (secondPage.outputs store) ∧
      statement.answers Engine.standard tables ⊆ secondPage.answers store ∧
      (statement.answers Engine.standard tables).Nonempty :=
  ⟨_, rfl, by decide, by decide, by decide, by decide, rfl,
    statement_sound _ _ _ _ _ (by decide) (by decide) (by decide) (by decide) rfl rfl⟩

end Plan

end EntityQuery
