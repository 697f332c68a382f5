/-
# The meaning of a statement

A statement is run clause by clause: the rows of its FROM item, in no particular order; those that
its WHERE clause finds true; their numbers in some order that the keys of the row number allow; some
order that the ORDER BY clause allows; the first rows of it if there is a TOP; and the select list
mapped over what is left.  A statement in the place of a table is no exception: its own order is
lost to the statement around it.

Most of the emitter works on statements that neither cut nor number their rows.  For these
`Clauses.rows` gives the rows before they are sorted, and each change of the clauses is an operator
on that set (`Clauses.rows_addFilter`, `Clauses.rows_setColumns`, `Clauses.outcomes_setOrder`, …).
-/
import EntityQuery.Proofs.Meaning
import EntityQuery.Select.Basic

namespace EntityQuery

/-! ## Clauses -/

namespace Clauses

variable (engine : Engine)

/-- Whether the WHERE clause keeps a row. -/
def keeps (clauses : Clauses) (row : Row) : Bool :=
  clauses.predicate.all (·.holds engine .native row)

/-- The rows with their row numbers; zero where no row number is asked for. -/
def numbered (clauses : Clauses) (R : Outcomes Row) : Outcomes (Row × ℕ) :=
  match clauses.rowNumber with
  | none => R.map (·, 0)
  | some keys => (R.sort (Precedes engine keys)).number

/-- The first rows, if only so many are asked for. -/
def limited {α : Type} (clauses : Clauses) (R : Outcomes α) : Outcomes α :=
  match clauses.top with
  | none => R
  | some count => R.take count.toNat

/-- The row of the select list for a numbered row. -/
def selected (clauses : Clauses) (row : Row × ℕ) : Row :=
  match clauses.rowNumber with
  | none => Row.project engine clauses.columns row.1
  | some _ => Function.update (Row.project engine clauses.columns row.1) rowNumberColumn
      (.int (Int64.ofNat row.2))

/-- The row sequences that a statement with these clauses may answer with, from the row sequences of
its FROM item. -/
def outcomes (clauses : Clauses) (items : Outcomes Row) : Outcomes Row :=
  let kept := items.shuffle.filter (clauses.keeps engine)
  let ordered := (clauses.numbered engine kept).sort
    (fun a b => Precedes engine clauses.orderBy a.1 b.1)
  (clauses.limited ordered).map (clauses.selected engine)

/-- The rows of the select list in any order, before a cut and without a number. -/
def rows (clauses : Clauses) (items : Outcomes Row) : Outcomes Row :=
  (items.shuffle.filter (clauses.keeps engine)).map (Row.project engine clauses.columns)

end Clauses

/-! ## Statements -/

namespace Select

variable (engine : Engine) (tables : String → List Row)

/-- The row sequences that a statement may answer with. -/
def outcomes : Select → Outcomes Row
  | ofTable clauses table _ => clauses.outcomes engine {tables table}
  | ofQuery clauses query _ => clauses.outcomes engine query.outcomes

/-- The row sequences of the FROM item. -/
def items : Select → Outcomes Row
  | ofTable _ table _ => {tables table}
  | ofQuery _ query _ => query.outcomes engine tables

/-- What a caller may see of a statement: its rows on the visible columns. -/
def answers (statement : Select) : Outcomes (List (String × Value)) :=
  (statement.outcomes engine tables).map (Row.shown (visibleNames statement.clauses.columns))

variable {engine : Engine} {tables : String → List Row}

/-- A statement means what its clauses mean over its items. -/
theorem outcomes_eq (statement : Select) : statement.outcomes engine tables =
    statement.clauses.outcomes engine (statement.items engine tables) := by
  cases statement <;> rfl

@[simp] theorem clauses_map (f : Clauses → Clauses) (statement : Select) :
    (statement.map f).clauses = f statement.clauses := by
  cases statement <;> rfl

@[simp] theorem items_map (f : Clauses → Clauses) (statement : Select) :
    (statement.map f).items engine tables = statement.items engine tables := by
  cases statement <;> rfl

/-- Changed clauses are read over the same items. -/
theorem outcomes_map (f : Clauses → Clauses) (statement : Select) :
    (statement.map f).outcomes engine tables =
      (f statement.clauses).outcomes engine (statement.items engine tables) := by
  rw [outcomes_eq, clauses_map, items_map]

end Select

namespace Clauses

variable {engine : Engine} {clauses : Clauses} {items : Outcomes Row}

/-! ## Statements without row number -/

/-- Without a row number a statement filters, sorts, cuts and projects its items. -/
theorem outcomes_of_rowNumber (h : clauses.rowNumber = none) :
    clauses.outcomes engine items =
      (clauses.limited ((items.shuffle.filter (clauses.keeps engine)).sort
        (Precedes engine clauses.orderBy))).map (Row.project engine clauses.columns) := by
  have hselected : clauses.selected engine = Row.project engine clauses.columns ∘ Prod.fst := by
    funext row
    simp only [selected, h, Function.comp_apply]
  have hsort : ∀ R : Outcomes Row,
      (R.map (·, 0)).sort (fun a b : Row × ℕ => Precedes engine clauses.orderBy a.1 b.1) =
        (R.sort (Precedes engine clauses.orderBy)).map (·, 0) :=
    fun R => (Outcomes.map_sort (fun _ _ => Iff.rfl) R).symm
  have hlimited : ∀ R : Outcomes Row,
      clauses.limited (R.map (·, 0)) = (clauses.limited R).map ((·, 0) : Row → Row × ℕ) := by
    intro R
    unfold limited
    split
    · rfl
    · exact (Outcomes.map_take _ _ _).symm
  simp only [outcomes, numbered, h, hsort, hlimited, hselected, Outcomes.map_map]
  rfl

/-- The rows of a statement without row number have the columns of the select list only. -/
theorem cut_of_mem_outcomes (h : clauses.rowNumber = none) {xs : List Row}
    (hxs : xs ∈ clauses.outcomes engine items) :
    ∀ row ∈ xs, Row.cut (columnNames clauses.columns) row = row := by
  rw [outcomes_of_rowNumber h] at hxs
  obtain ⟨ys, -, rfl⟩ := hxs
  intro row hrow
  obtain ⟨r, -, rfl⟩ := List.mem_map.mp hrow
  exact Row.cut_project engine clauses.columns r

/-- Keys over the output order the rows of the select list as the inlined keys order the items. -/
theorem precedes_inlineKeys {keys : List SortKey}
    (h : ∀ key ∈ keys, key.expr.references ⊆ columnNames clauses.columns) (a b : Row) :
    Precedes engine keys (Row.project engine clauses.columns a)
        (Row.project engine clauses.columns b) ↔
      Precedes engine (clauses.inlineKeys keys) a b := by
  have horder : keyOrder engine (clauses.inlineKeys keys) a b =
      keyOrder engine keys (Row.project engine clauses.columns a)
        (Row.project engine clauses.columns b) := by
    rw [inlineKeys]
    refine keyOrder_map ?_ ?_ a b
    · exact fun _ _ => rfl
    · exact fun key hkey row => Expr.eval_inline (h key hkey) row
  rw [Precedes, Precedes, horder]

/-- A cut of a sorted statement is sorted. -/
theorem pairwise_of_mem_outcomes (hnumber : clauses.rowNumber = none) {keys : List SortKey}
    (hreads : ∀ key ∈ keys, key.expr.references ⊆ columnNames clauses.columns)
    (horder : clauses.orderBy = clauses.inlineKeys keys) {xs : List Row}
    (hxs : xs ∈ clauses.outcomes engine items) : xs.Pairwise (Precedes engine keys) := by
  rw [outcomes_of_rowNumber hnumber, horder] at hxs
  obtain ⟨ys, hys, rfl⟩ := hxs
  have hsorted : ys.Pairwise (Precedes engine (clauses.inlineKeys keys)) := by
    unfold limited at hys
    split at hys
    · exact hys.choose_spec.2.2
    · obtain ⟨zs, hzs, rfl⟩ := hys
      exact hzs.choose_spec.2.2.sublist (List.take_sublist _ _)
  rw [List.pairwise_map]
  exact hsorted.imp (precedes_inlineKeys hreads _ _).mpr

/-! ## Statements that neither cut nor number -/

/-- Columns can be replaced where rows are neither cut nor numbered. -/
theorem acceptsProjection_iff :
    clauses.acceptsProjection = true ↔ clauses.top = none ∧ clauses.rowNumber = none := by
  simp [acceptsProjection]

/-- Such a statement filters, sorts and projects its items. -/
theorem outcomes_of_acceptsProjection (h : clauses.acceptsProjection = true) :
    clauses.outcomes engine items =
      ((items.shuffle.filter (clauses.keeps engine)).sort (Precedes engine clauses.orderBy)).map
        (Row.project engine clauses.columns) := by
  obtain ⟨htop, hnumber⟩ := acceptsProjection_iff.mp h
  rw [outcomes_of_rowNumber hnumber, limited, htop]

/-- Without a filter all items are projected. -/
theorem rows_of_predicate (h : clauses.predicate = none) :
    clauses.rows engine items = items.shuffle.map (Row.project engine clauses.columns) := by
  rw [rows, Outcomes.filter_eq_self]
  intro _ _ _ _
  rw [keeps, h, Option.all_none]

/-- The order of the items is open, and so is that of the rows. -/
theorem shuffle_rows : (clauses.rows engine items).shuffle = clauses.rows engine items := by
  rw [rows, ← Outcomes.map_shuffle, ← Outcomes.filter_shuffle, Outcomes.shuffle_shuffle]

/-- The outcomes of a statement are among its rows in any order. -/
theorem outcomes_subset_rows (h : clauses.acceptsProjection = true) :
    clauses.outcomes engine items ⊆ clauses.rows engine items := by
  rw [outcomes_of_acceptsProjection h, ← shuffle_rows, rows, ← Outcomes.map_shuffle]
  exact Outcomes.map_mono _ (Outcomes.sort_subset_shuffle _)

/-- The rows can be put in the order of the statement. -/
theorem rows_subset_shuffle (h : clauses.acceptsProjection = true) :
    clauses.rows engine items ⊆ (clauses.outcomes engine items).shuffle := by
  rw [outcomes_of_acceptsProjection h]
  rintro _ ⟨xs, hxs, rfl⟩
  obtain ⟨ys, hperm, hsorted⟩ :=
    Outcomes.exists_sorted_perm (Precedes engine clauses.orderBy) xs
  exact ⟨_, ⟨ys, ⟨xs, hxs, hperm, hsorted⟩, rfl⟩, (hperm.map _).symm⟩

/-! ## Changes of the clauses

What each change does to the rows of a statement, in terms of the columns that it produces. -/

/-- A condition over the output, inlined into the WHERE clause, tests the rows. -/
theorem rows_addFilter {predicate : Expr}
    (h : predicate.references ⊆ columnNames clauses.columns) :
    (clauses.addFilter predicate).rows engine items =
      (clauses.rows engine items).filter (fun row => predicate.holds engine .native row) := by
  have hinline : ∀ row, (predicate.substitute clauses.definition).holds engine .native row =
      predicate.holds engine .native (Row.project engine clauses.columns row) := by
    intro row
    rw [Expr.holds, Expr.holds, Expr.truth, Expr.truth]
    exact congrArg (fun v => decide (Value.truth v = .holds)) (Expr.eval_inline h row)
  have hkeeps : (clauses.addFilter predicate).keeps engine = fun row =>
      predicate.holds engine .native (Row.project engine clauses.columns row) &&
        clauses.keeps engine row := by
    funext row
    cases hpredicate : clauses.predicate with
    | none => simp [keeps, addFilter, hpredicate, hinline]
    | some existing =>
      simp only [keeps, addFilter, hpredicate, Option.all_some, Expr.holds_and, hinline]
      exact Bool.and_comm _ _
  rw [rows, hkeeps, rows, Outcomes.filter_map, Outcomes.filter_filter]
  rfl

/-- Columns over the output, inlined into the select list, map the rows. -/
theorem rows_setColumns {columns : List OutputColumn}
    (h : ∀ c ∈ columns, c.expr.references ⊆ columnNames clauses.columns) :
    (clauses.setColumns columns).rows engine items =
      (clauses.rows engine items).map (Row.project engine columns) := by
  rw [rows, rows, Outcomes.map_map]
  exact congrArg (items.shuffle.filter (clauses.keeps engine)).map
    (funext fun row => Row.project_inline h row)

/-- Keys over the output, inlined into the ORDER BY clause, sort the rows. -/
theorem outcomes_setOrder (hopen : clauses.acceptsProjection = true) {keys : List SortKey}
    (h : ∀ key ∈ keys, key.expr.references ⊆ columnNames clauses.columns) :
    (clauses.setOrder keys).outcomes engine items =
      (clauses.rows engine items).sort (Precedes engine keys) := by
  have hopen' : (clauses.setOrder keys).acceptsProjection = true := hopen
  rw [outcomes_of_acceptsProjection hopen']
  exact Outcomes.map_sort (precedes_inlineKeys h) _

/-- Keys and a limit added to a statement sort and cut its rows. -/
theorem outcomes_setOrder_setTop (hopen : clauses.acceptsProjection = true) {keys : List SortKey}
    (h : ∀ key ∈ keys, key.expr.references ⊆ columnNames clauses.columns) (count : UInt64) :
    ((clauses.setOrder keys).setTop count).outcomes engine items =
      ((clauses.rows engine items).sort (Precedes engine keys)).take count.toNat := by
  have hopen' : (clauses.setOrder keys).acceptsProjection = true := hopen
  have hnumber : ((clauses.setOrder keys).setTop count).rowNumber = none :=
    (acceptsProjection_iff.mp hopen).2
  rw [← outcomes_setOrder hopen h, outcomes_of_acceptsProjection hopen',
    outcomes_of_rowNumber hnumber]
  exact Outcomes.map_take _ _ _

/-- Without keys a sort leaves the order open. -/
theorem sort_no_keys {α : Type} (f : α → Row) (R : Outcomes α) :
    R.sort (fun a b => Precedes engine [] (f a) (f b)) = R.shuffle := by
  have htrue : (fun a b => Precedes engine [] (f a) (f b)) = fun _ _ => True := by
    funext a b
    exact eq_true rfl
  rw [htrue, Outcomes.shuffle_eq_sort]

/-- A row with its number in the column for it. -/
def withNumber (row : Row × ℕ) : Row :=
  Function.update row.1 rowNumberColumn (.int (Int64.ofNat row.2))

/-- Keys over the output, inlined into a row number, number the sorted rows. -/
theorem outcomes_setRowNumber (hopen : clauses.acceptsProjection = true) {keys : List SortKey}
    (h : ∀ key ∈ keys, key.expr.references ⊆ columnNames clauses.columns) :
    (clauses.setRowNumber keys).outcomes engine items =
      (((clauses.rows engine items).sort (Precedes engine keys)).number.map
        withNumber).shuffle := by
  obtain ⟨htop, -⟩ := acceptsProjection_iff.mp hopen
  have hselected : (clauses.setRowNumber keys).selected engine =
      withNumber ∘ Prod.map (Row.project engine clauses.columns) id := rfl
  have hlimited : ∀ R : Outcomes (Row × ℕ), (clauses.setRowNumber keys).limited R = R := by
    intro R
    simp only [limited, setRowNumber, htop]
  rw [rows, ← Outcomes.map_sort (precedes_inlineKeys h), Outcomes.number_map, Outcomes.map_map,
    ← hselected, ← Outcomes.map_shuffle, outcomes, hlimited, ← sort_no_keys Prod.fst]
  rfl

/-! ## Lost orders -/

/-- A row number leaves no order to be dropped. -/
theorem dropOrder_setRowNumber (keys : List SortKey) :
    (clauses.setRowNumber keys).dropOrder = clauses.setRowNumber keys := by
  unfold dropOrder
  split <;> rfl

@[simp] theorem rowNumber_dropOrder : clauses.dropOrder.rowNumber = clauses.rowNumber := by
  unfold dropOrder
  split <;> rfl

@[simp] theorem columns_dropOrder : clauses.dropOrder.columns = clauses.columns := by
  unfold dropOrder
  split <;> rfl

/-- Without the order that no cut depends on a statement has the same rows. -/
theorem outcomes_dropOrder_subset (hnumber : clauses.rowNumber = none) :
    clauses.dropOrder.outcomes engine items ⊆ (clauses.outcomes engine items).shuffle := by
  unfold dropOrder
  split
  next htop =>
    have hopen : clauses.acceptsProjection = true :=
      acceptsProjection_iff.mpr ⟨Option.isNone_iff_eq_none.mp htop, hnumber⟩
    have hopen' : Clauses.acceptsProjection { clauses with orderBy := [] } = true := hopen
    exact (outcomes_subset_rows hopen').trans (rows_subset_shuffle hopen)
  next => exact Outcomes.subset_shuffle _

end Clauses

/-! ## Every statement answers -/

/-- Whatever can be read can be sorted and cut. -/
theorem Clauses.outcomes_nonempty (engine : Engine) (clauses : Clauses) {items : Outcomes Row}
    (h : items.Nonempty) : (clauses.outcomes engine items).Nonempty := by
  have hkept : (items.shuffle.filter (clauses.keeps engine)).Nonempty :=
    (h.mono (Outcomes.subset_shuffle items)).image _
  have hnumbered : (clauses.numbered engine
      (items.shuffle.filter (clauses.keeps engine))).Nonempty := by
    unfold numbered
    split
    · exact hkept.image _
    · exact (Outcomes.sort_nonempty _ hkept).image _
  have htotal : Std.Total (fun a b : Row × ℕ => Precedes engine clauses.orderBy a.1 b.1) :=
    ⟨fun a b => Std.Total.total (r := Precedes engine clauses.orderBy) a.1 b.1⟩
  have htrans : IsTrans (Row × ℕ) (fun a b => Precedes engine clauses.orderBy a.1 b.1) :=
    ⟨fun a b c => IsTrans.trans (r := Precedes engine clauses.orderBy) a.1 b.1 c.1⟩
  have hordered := Outcomes.sort_nonempty
    (fun a b : Row × ℕ => Precedes engine clauses.orderBy a.1 b.1) hnumbered
  simp only [Clauses.outcomes, Clauses.limited]
  split
  · exact hordered.image _
  · exact (hordered.image _).image _

/-- A statement always has an answer. -/
theorem Select.answers_nonempty (engine : Engine) (tables : String → List Row)
    (statement : Select) : (statement.answers engine tables).Nonempty := by
  have h : (statement.outcomes engine tables).Nonempty := by
    induction statement with
    | ofTable clauses table item => exact clauses.outcomes_nonempty engine ⟨_, rfl⟩
    | ofQuery clauses query item ih => exact clauses.outcomes_nonempty engine ih
  exact h.image _

end EntityQuery
