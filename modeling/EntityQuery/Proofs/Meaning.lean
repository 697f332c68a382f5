/-
# The meaning of a plan

A plan is run against a `Store`: an engine, how filters treat nulls, the entity sets with their
columns and rows, and a test for each type that a type filter may name.  Its meaning is the set of
row sequences it may answer with:

* a source gives its rows in any order;
* a filter keeps the rows whose predicate is true, a type filter those that pass the test of its
  type, and a projection maps each row;
* a sort gives every permutation that its keys allow, ties in any order;
* a skip and a take cut by position.

`Plan.results` is over whole rows.  `Plan.answers` is what a caller sees of them: the visible
columns, by name and in order.  `Plan.Scoped` says that every column read is one that the input
produces; under it a row matters through the columns produced only (`Plan.cut_of_mem_results`).
-/
import EntityQuery.Proofs.Evaluation
import EntityQuery.Proofs.Outcomes

namespace EntityQuery

/-! ## Rows -/

namespace Row

/-- The row without the columns that are not named. -/
def cut (names : List String) (row : Row) : Row :=
  fun name => if name ∈ names then row name else .null

/-- The row of the values of some output columns. -/
def project (engine : Engine) (columns : List OutputColumn) (row : Row) : Row :=
  fun name =>
    match columns.find? (fun c => c.name = name) with
    | some c => c.expr.eval engine .native row
    | none => .null

/-- What is seen of a row: the named columns in order. -/
def shown (names : List String) (row : Row) : List (String × Value) :=
  names.map fun name => (name, row name)

theorem cut_of_mem {names : List String} {name : String} (h : name ∈ names) (row : Row) :
    cut names row name = row name := if_pos h

theorem cut_of_notMem {names : List String} {name : String} (h : name ∉ names) (row : Row) :
    cut names row name = .null := if_neg h

/-- Cutting to fewer columns hides an earlier cut. -/
theorem cut_cut {ms ns : List String} (h : ms ⊆ ns) (row : Row) :
    cut ms (cut ns row) = cut ms row := by
  funext name
  by_cases hm : name ∈ ms
  · rw [cut_of_mem hm, cut_of_mem hm, cut_of_mem (h hm)]
  · rw [cut_of_notMem hm, cut_of_notMem hm]

/-- What is seen does not depend on columns that are not shown. -/
theorem shown_cut {ms ns : List String} (h : ms ⊆ ns) (row : Row) :
    shown ms (cut ns row) = shown ms row :=
  List.map_congr_left fun name hname => by rw [cut_of_mem (h hname)]

/-- Two rows that agree on some columns are cut to the same row. -/
theorem cut_congr {names : List String} {a b : Row} (h : ∀ name ∈ names, a name = b name) :
    cut names a = cut names b := by
  funext name
  by_cases hn : name ∈ names
  · rw [cut_of_mem hn, cut_of_mem hn, h name hn]
  · rw [cut_of_notMem hn, cut_of_notMem hn]

end Row

/-- An expression that reads only columns that are kept does not see a cut. -/
theorem Expr.eval_cut {engine : Engine} {mode : NullMode} {names : List String} {e : Expr}
    (h : e.references ⊆ names) (row : Row) :
    e.eval engine mode (Row.cut names row) = e.eval engine mode row :=
  eval_congr fun _ hc => Row.cut_of_mem (h hc) row

/-- A predicate does not depend on columns that it does not read. -/
theorem Expr.holds_cut {engine : Engine} {mode : NullMode} {names : List String} {e : Expr}
    (h : e.references ⊆ names) (row : Row) :
    e.holds engine mode (Row.cut names row) = e.holds engine mode row := by
  rw [holds, holds, truth, truth, eval_cut h]

/-! ## Output columns -/

/-- The names of some output columns. -/
def columnNames (columns : List OutputColumn) : List String :=
  columns.map (·.name)

/-- The names of the columns that are not hidden. -/
def visibleNames (columns : List OutputColumn) : List String :=
  columnNames (columns.filter fun c => !c.hidden)

/-- The names of some output columns with whether they are hidden. -/
def headers (columns : List OutputColumn) : List (String × Bool) :=
  columns.map fun c => (c.name, c.hidden)

/-- The names are part of the headers. -/
theorem columnNames_eq_headers (columns : List OutputColumn) :
    columnNames columns = (headers columns).map Prod.fst := by
  rw [columnNames, headers, List.map_map]
  rfl

theorem visibleNames_eq_headers (columns : List OutputColumn) :
    visibleNames columns = ((headers columns).filter (!·.2)).map Prod.fst := by
  rw [visibleNames, columnNames, headers, List.filter_map, List.map_map]
  rfl

theorem columnNames_eq_of_headers {columns columns' : List OutputColumn}
    (h : headers columns = headers columns') : columnNames columns = columnNames columns' := by
  rw [columnNames_eq_headers, h, ← columnNames_eq_headers]

theorem visibleNames_eq_of_headers {columns columns' : List OutputColumn}
    (h : headers columns = headers columns') : visibleNames columns = visibleNames columns' := by
  rw [visibleNames_eq_headers, h, ← visibleNames_eq_headers]

/-- What can be seen is there. -/
theorem visibleNames_subset (columns : List OutputColumn) :
    visibleNames columns ⊆ columnNames columns := by
  intro name hname
  obtain ⟨c, hc, rfl⟩ := List.mem_map.mp hname
  exact List.mem_map_of_mem (List.mem_of_mem_filter hc)

@[simp] theorem columnNames_passThrough (names : List String) :
    columnNames (names.map OutputColumn.passThrough) = names := by
  rw [columnNames, List.map_map]
  exact (List.map_congr_left fun _ _ => rfl).trans (List.map_id names)

/-- A name among the columns is the name of the first column found for it. -/
theorem exists_find_of_mem_columnNames {columns : List OutputColumn} {name : String}
    (h : name ∈ columnNames columns) :
    ∃ c ∈ columns, c.name = name ∧ columns.find? (fun c => c.name = name) = some c := by
  obtain ⟨c, hc, rfl⟩ := List.mem_map.mp h
  cases hfind : columns.find? (fun d => d.name = c.name) with
  | none => exact absurd (List.find?_eq_none.mp hfind c hc) (by simp)
  | some d =>
    exact ⟨d, List.mem_of_find?_eq_some hfind, by simpa using List.find?_some hfind, rfl⟩

/-- A column that is not named is not found. -/
theorem find_eq_none_of_notMem_columnNames {columns : List OutputColumn} {name : String}
    (h : name ∉ columnNames columns) : columns.find? (fun c => c.name = name) = none := by
  rw [List.find?_eq_none]
  intro c hc hname
  simp only [decide_eq_true_eq] at hname
  exact h (hname ▸ List.mem_map_of_mem hc)

/-- Where names are distinct, a column is the one found for its name. -/
theorem find_eq_some_of_nodup {columns : List OutputColumn} (hnodup : (columnNames columns).Nodup)
    {c : OutputColumn} (hc : c ∈ columns) :
    columns.find? (fun d => d.name = c.name) = some c := by
  obtain ⟨d, hd, hname, hfind⟩ := exists_find_of_mem_columnNames (List.mem_map_of_mem hc)
  rw [hfind, List.inj_on_of_nodup_map hnodup hd hc hname]

namespace Row

/-- The value of a column of a projected row. -/
theorem project_of_find {engine : Engine} {columns : List OutputColumn} {name : String}
    {c : OutputColumn} (h : columns.find? (fun c => c.name = name) = some c) (row : Row) :
    project engine columns row name = c.expr.eval engine .native row := by
  rw [project, h]

/-- A column that is not projected is absent from the row. -/
theorem project_of_notMem {engine : Engine} {columns : List OutputColumn} {name : String}
    (h : name ∉ columnNames columns) (row : Row) : project engine columns row name = .null := by
  rw [project, find_eq_none_of_notMem_columnNames h]

/-- A projected row has no other columns. -/
theorem cut_project (engine : Engine) (columns : List OutputColumn) (row : Row) :
    cut (columnNames columns) (project engine columns row) = project engine columns row := by
  funext name
  by_cases h : name ∈ columnNames columns
  · rw [cut_of_mem h]
  · rw [cut_of_notMem h, project_of_notMem h]

/-- A projection that reads only columns that are kept does not see a cut. -/
theorem project_cut {engine : Engine} {columns : List OutputColumn} {names : List String}
    (h : ∀ c ∈ columns, c.expr.references ⊆ names) (row : Row) :
    project engine columns (cut names row) = project engine columns row := by
  funext name
  by_cases hn : name ∈ columnNames columns
  · obtain ⟨c, hc, -, hfind⟩ := exists_find_of_mem_columnNames hn
    rw [project_of_find hfind, project_of_find hfind, Expr.eval_cut (h c hc)]
  · rw [project_of_notMem hn, project_of_notMem hn]

/-- Columns handed on under their own names cut the row. -/
theorem project_of_columns {engine : Engine} {columns : List OutputColumn}
    (h : ∀ c ∈ columns, c.expr = .column c.name) (row : Row) :
    project engine columns row = cut (columnNames columns) row := by
  funext name
  by_cases hn : name ∈ columnNames columns
  · obtain ⟨c, hc, rfl, hfind⟩ := exists_find_of_mem_columnNames hn
    rw [project_of_find hfind, cut_of_mem hn, h c hc, Expr.eval]
  · rw [project_of_notMem hn, cut_of_notMem hn]

/-- Passing columns through is cutting off the others. -/
theorem project_passThrough (engine : Engine) (names : List String) (row : Row) :
    project engine (names.map OutputColumn.passThrough) row = cut names row := by
  rw [project_of_columns (fun c hc => ?_), columnNames_passThrough]
  obtain ⟨name, -, rfl⟩ := List.mem_map.mp hc
  rfl

end Row

/-- What the columns stand for, as a row: where they have a name, the value of the projected row. -/
theorem eval_definition {engine : Engine} {columns : List OutputColumn} {name : String}
    (h : name ∈ columnNames columns) (row : Row) :
    (OutputColumn.definition columns name).eval engine .native row =
      Row.project engine columns row name := by
  obtain ⟨c, -, -, hfind⟩ := exists_find_of_mem_columnNames h
  rw [OutputColumn.definition, hfind, Row.project_of_find hfind]

/-- **Inlining.**  An expression over the columns of a projection, stated over its input. -/
theorem Expr.eval_inline {engine : Engine} {columns : List OutputColumn} {e : Expr}
    (h : e.references ⊆ columnNames columns) (row : Row) :
    (e.substitute (OutputColumn.definition columns)).eval engine .native row =
      e.eval engine .native (Row.project engine columns row) := by
  rw [eval_substitute]
  exact eval_congr fun c hc => eval_definition (h hc) row

/-- Stating columns over another input changes no name. -/
@[simp] theorem headers_map_substitute (f : String → Expr) (columns : List OutputColumn) :
    headers (columns.map (·.substitute f)) = headers columns := by
  rw [headers, List.map_map]
  rfl

/-- Columns stated over the input of another projection give the row of both projections. -/
theorem Row.project_inline {engine : Engine} {outer inner : List OutputColumn}
    (h : ∀ c ∈ outer, c.expr.references ⊆ columnNames inner) (row : Row) :
    Row.project engine (outer.map (·.substitute (OutputColumn.definition inner))) row =
      Row.project engine outer (Row.project engine inner row) := by
  funext name
  by_cases hname : name ∈ columnNames outer
  · obtain ⟨c, hc, -, hfind⟩ := exists_find_of_mem_columnNames hname
    have hfind' : (outer.map (·.substitute (OutputColumn.definition inner))).find?
        (fun d => d.name = name) = some (c.substitute (OutputColumn.definition inner)) := by
      rw [List.find?_map]
      exact congrArg (Option.map _) hfind
    rw [project_of_find hfind', project_of_find hfind]
    exact Expr.eval_inline (h c hc) row
  · rw [project_of_notMem hname, project_of_notMem]
    rwa [columnNames_eq_of_headers (headers_map_substitute _ outer)]

/-- What a column stands for in terms of a projection's input reads columns of that input. -/
theorem references_inline_subset {inner : List OutputColumn} {names : List String} {e : Expr}
    (hinner : ∀ c ∈ inner, c.expr.references ⊆ names) (he : e.references ⊆ columnNames inner) :
    (e.substitute (OutputColumn.definition inner)).references ⊆ names := by
  intro name hname
  obtain ⟨c, hc, hread⟩ := Expr.mem_references_substitute.mp hname
  obtain ⟨d, hd, -, hfind⟩ := exists_find_of_mem_columnNames (he hc)
  rw [OutputColumn.definition, hfind] at hread
  exact hinner d hd hread

/-! ## Sort keys -/

/-- The order of two rows by one key. -/
def SortKey.order (engine : Engine) (key : SortKey) (a b : Row) : Ordering :=
  match key.direction with
  | .asc => engine.order (key.expr.eval engine .native a) (key.expr.eval engine .native b)
  | .desc => engine.order (key.expr.eval engine .native b) (key.expr.eval engine .native a)

/-- The order of two rows by several keys; later keys break the ties of earlier ones. -/
def keyOrder (engine : Engine) : List SortKey → Row → Row → Ordering
  | [], _, _ => .eq
  | key :: keys, a, b => (key.order engine a b).then (keyOrder engine keys a b)

/-- Whether the keys allow the first row in front of the second. -/
def Precedes (engine : Engine) (keys : List SortKey) (a b : Row) : Prop :=
  (keyOrder engine keys a b).isLE

/-- The order by a key is transitive, in both directions. -/
theorem SortKey.order_trans (engine : Engine) (key : SortKey) :
    Std.TransCmp (key.order engine) := by
  have htrans : Std.TransCmp engine.order := engine.order_trans
  obtain ⟨e, direction⟩ := key
  cases direction with
  | asc =>
    exact { eq_swap := htrans.eq_swap, isLE_trans := htrans.isLE_trans }
  | desc =>
    exact { eq_swap := htrans.eq_swap, isLE_trans := fun hab hbc => htrans.isLE_trans hbc hab }

theorem keyOrder_trans (engine : Engine) (keys : List SortKey) :
    Std.TransCmp (keyOrder engine keys) := by
  induction keys with
  | nil => exact { eq_swap := rfl, isLE_trans := fun _ _ => rfl }
  | cons key keys ih =>
    have hkey := key.order_trans engine
    exact inferInstanceAs (Std.TransCmp (compareLex (key.order engine) (keyOrder engine keys)))

instance (engine : Engine) (keys : List SortKey) : Std.Total (Precedes engine keys) where
  total a b := by
    have htrans := keyOrder_trans engine keys
    have hswap : keyOrder engine keys a b = (keyOrder engine keys b a).swap := htrans.eq_swap
    unfold Precedes
    rw [hswap]
    cases keyOrder engine keys b a <;> decide

/-- Sorting may go from neighbour to neighbour. -/
instance (engine : Engine) (keys : List SortKey) : IsTrans Row (Precedes engine keys) where
  trans _ _ _ hab hbc := by
    have htrans := keyOrder_trans engine keys
    exact htrans.isLE_trans hab hbc

/-- Keys that are paired off with equal values and directions order rows alike. -/
theorem keyOrder_map {engine : Engine} {f : Row → Row} {g : SortKey → SortKey} {keys : List SortKey}
    (hdir : ∀ key ∈ keys, (g key).direction = key.direction)
    (heval : ∀ key ∈ keys, ∀ row, (g key).expr.eval engine .native row =
      key.expr.eval engine .native (f row)) (a b : Row) :
    keyOrder engine (keys.map g) a b = keyOrder engine keys (f a) (f b) := by
  induction keys with
  | nil => rfl
  | cons key keys ih =>
    have hkey : (g key).order engine a b = key.order engine (f a) (f b) := by
      unfold SortKey.order
      rw [hdir key List.mem_cons_self, heval key List.mem_cons_self, heval key List.mem_cons_self]
    rw [List.map_cons, keyOrder, keyOrder, hkey,
      ih (fun k hk => hdir k (List.mem_cons_of_mem key hk))
        (fun k hk => heval k (List.mem_cons_of_mem key hk))]

/-- Keys that read only columns that are kept do not see a cut. -/
theorem precedes_cut {engine : Engine} {keys : List SortKey} {names : List String}
    (h : ∀ key ∈ keys, key.expr.references ⊆ names) (a b : Row) :
    Precedes engine keys (Row.cut names a) (Row.cut names b) ↔ Precedes engine keys a b := by
  have heq : keyOrder engine (keys.map id) a b =
      keyOrder engine keys (Row.cut names a) (Row.cut names b) :=
    keyOrder_map (fun _ _ => rfl) (fun key hkey row => (Expr.eval_cut (h key hkey) row).symm) a b
  rw [Precedes, Precedes, ← heq, List.map_id]

/-! ## Cut rows

Operators that read only columns that are kept may as well be run on the cut rows. -/

namespace Outcomes

variable {engine : Engine} {names : List String}

/-- A test that reads no other columns can be made before or after they are cut off. -/
theorem filter_map_cut {keep : Row → Bool} (h : ∀ row, keep (Row.cut names row) = keep row)
    (R : Outcomes Row) :
    (R.filter keep).map (Row.cut names) = (R.map (Row.cut names)).filter keep := by
  rw [filter_map]
  exact congrArg (fun keep => (R.filter keep).map (Row.cut names)) (funext fun row => (h row).symm)

/-- A projection that reads no other columns can do without them. -/
theorem project_map_cut {columns : List OutputColumn}
    (h : ∀ c ∈ columns, c.expr.references ⊆ names) (R : Outcomes Row) :
    (R.map (Row.cut names)).map (Row.project engine columns) =
      R.map (Row.project engine columns) := by
  rw [map_map]
  exact congrArg R.map (funext fun row => Row.project_cut h row)

/-- A sort that reads no other columns can be made before or after they are cut off. -/
theorem sort_map_cut {keys : List SortKey} (h : ∀ key ∈ keys, key.expr.references ⊆ names)
    (R : Outcomes Row) :
    (R.sort (Precedes engine keys)).map (Row.cut names) =
      (R.map (Row.cut names)).sort (Precedes engine keys) :=
  map_sort (precedes_cut h) R

end Outcomes

/-! ## Stores -/

/-- What plans are run against.  The test of a type may depend on the columns that it reads, and on
nothing else of a row. -/
structure Store where
  engine : Engine
  /-- How the comparisons of filters treat nulls. -/
  nulls : NullMode := .native
  /-- The columns of an entity set. -/
  columns : String → List String
  /-- The rows of an entity set. -/
  rows : String → List Row
  /-- The columns that the test of a type reads. -/
  typeReads : String → List String
  /-- Whether a row is of a type. -/
  isOfType : String → Row → Bool
  isOfType_congr : ∀ {subtype : String} {a b : Row},
    (∀ c ∈ typeReads subtype, a c = b c) → isOfType subtype a = isOfType subtype b

/-- The test of a type that reads only columns that are kept does not see a cut. -/
theorem Store.isOfType_cut (store : Store) {subtype : String} {names : List String}
    (h : store.typeReads subtype ⊆ names) (row : Row) :
    store.isOfType subtype (Row.cut names row) = store.isOfType subtype row :=
  store.isOfType_congr fun _ hc => Row.cut_of_mem (h hc) row

namespace Plan

/-! ## Columns and results -/

/-- The columns that a plan produces. -/
def outputs (store : Store) : Plan → List OutputColumn
  | source relation => (store.columns relation).map .passThrough
  | project columns _ => columns
  | filter _ p | sort _ p | skip _ p | take _ p | ofType _ p => p.outputs store

/-- The names of the columns that a plan produces. -/
def names (store : Store) (plan : Plan) : List String :=
  columnNames (plan.outputs store)

/-- The row sequences that a plan may answer with. -/
def results (store : Store) : Plan → Outcomes Row
  | source relation =>
    Outcomes.shuffle {(store.rows relation).map (Row.cut (store.columns relation))}
  | filter predicate p =>
    (p.results store).filter fun row => predicate.holds store.engine store.nulls row
  | project columns p => (p.results store).map (Row.project store.engine columns)
  | sort keys p => (p.results store).sort (Precedes store.engine keys)
  | skip count p => (p.results store).drop count.toNat
  | take count p => (p.results store).take count.toNat
  | ofType subtype p => (p.results store).filter (store.isOfType subtype)

/-- What a caller may see of a plan: its results on the visible columns. -/
def answers (store : Store) (plan : Plan) : Outcomes (List (String × Value)) :=
  (plan.results store).map (Row.shown (visibleNames (plan.outputs store)))

/-- Every column that is read is one that the input produces, and the columns of each projection
have distinct names. -/
def Scoped (store : Store) : Plan → Prop
  | source _ => True
  | filter predicate p => predicate.references ⊆ p.names store ∧ p.Scoped store
  | project columns p =>
    (∀ c ∈ columns, c.expr.references ⊆ p.names store) ∧ (columnNames columns).Nodup ∧
      p.Scoped store
  | sort keys p => (∀ key ∈ keys, key.expr.references ⊆ p.names store) ∧ p.Scoped store
  | skip _ p | take _ p => p.Scoped store
  | ofType subtype p => store.typeReads subtype ⊆ p.names store ∧ p.Scoped store

instance Scoped.decidable (store : Store) : (plan : Plan) → Decidable (plan.Scoped store)
  | source _ => isTrue trivial
  | filter predicate p =>
    have := Scoped.decidable store p
    inferInstanceAs (Decidable (predicate.references ⊆ p.names store ∧ p.Scoped store))
  | project columns p =>
    have := Scoped.decidable store p
    inferInstanceAs (Decidable ((∀ c ∈ columns, c.expr.references ⊆ p.names store) ∧
      (columnNames columns).Nodup ∧ p.Scoped store))
  | sort keys p =>
    have := Scoped.decidable store p
    inferInstanceAs (Decidable ((∀ key ∈ keys, key.expr.references ⊆ p.names store) ∧
      p.Scoped store))
  | skip _ p | take _ p => Scoped.decidable store p
  | ofType subtype p =>
    have := Scoped.decidable store p
    inferInstanceAs (Decidable (store.typeReads subtype ⊆ p.names store ∧ p.Scoped store))

/-- No operator of the plan produces a column of that name. -/
def Avoids (store : Store) (name : String) : Plan → Prop
  | source relation => name ∉ store.columns relation
  | project columns p => name ∉ columnNames columns ∧ p.Avoids store name
  | filter _ p | sort _ p | skip _ p | take _ p | ofType _ p => p.Avoids store name

instance Avoids.decidable (store : Store) (name : String) :
    (plan : Plan) → Decidable (plan.Avoids store name)
  | source relation => inferInstanceAs (Decidable (name ∉ store.columns relation))
  | project columns p =>
    have := Avoids.decidable store name p
    inferInstanceAs (Decidable (name ∉ columnNames columns ∧ p.Avoids store name))
  | filter _ p | sort _ p | skip _ p | take _ p | ofType _ p => Avoids.decidable store name p

/-- What is avoided is no column of the result. -/
theorem Avoids.notMem_names {store : Store} {name : String} {plan : Plan}
    (h : plan.Avoids store name) : name ∉ plan.names store := by
  induction plan with
  | source relation =>
    rw [names, outputs, columnNames_passThrough]
    exact h
  | project columns p ih => exact h.1
  | filter _ p ih | sort _ p ih | skip _ p ih | take _ p ih | ofType _ p ih => exact ih h

/-- What is avoided is no column of the relation below. -/
theorem Avoids.notMem_columns {store : Store} {name : String} {plan : Plan}
    (h : plan.Avoids store name) : name ∉ store.columns plan.relation := by
  induction plan with
  | source relation => exact h
  | project columns p ih => exact ih h.2
  | filter _ p ih | sort _ p ih | skip _ p ih | take _ p ih | ofType _ p ih => exact ih h

/-- The rows of a plan have no columns but those it produces. -/
theorem cut_of_mem_results {store : Store} {plan : Plan} {rows : List Row}
    (h : rows ∈ plan.results store) : ∀ row ∈ rows, Row.cut (plan.names store) row = row := by
  induction plan generalizing rows with
  | source relation =>
    obtain ⟨_, rfl, hperm⟩ := h
    intro row hrow
    obtain ⟨r, -, rfl⟩ := List.mem_map.mp (hperm.mem_iff.mp hrow)
    simp only [names, outputs, columnNames_passThrough]
    exact Row.cut_cut (List.Subset.refl _) r
  | filter predicate p ih =>
    obtain ⟨xs, hxs, rfl⟩ := h
    exact fun row hrow => ih hxs row (List.mem_of_mem_filter hrow)
  | project columns p ih =>
    obtain ⟨xs, -, rfl⟩ := h
    intro row hrow
    obtain ⟨r, -, rfl⟩ := List.mem_map.mp hrow
    exact Row.cut_project store.engine columns r
  | sort keys p ih =>
    obtain ⟨xs, hxs, hperm, -⟩ := h
    exact fun row hrow => ih hxs row (hperm.mem_iff.mp hrow)
  | skip count p ih =>
    obtain ⟨xs, hxs, rfl⟩ := h
    exact fun row hrow => ih hxs row (List.mem_of_mem_drop hrow)
  | take count p ih =>
    obtain ⟨xs, hxs, rfl⟩ := h
    exact fun row hrow => ih hxs row (List.mem_of_mem_take hrow)
  | ofType subtype p ih =>
    obtain ⟨xs, hxs, rfl⟩ := h
    exact fun row hrow => ih hxs row (List.mem_of_mem_filter hrow)

/-- A plan has no more rows than its entity set. -/
theorem length_le_of_mem_results {store : Store} {plan : Plan} {rows : List Row}
    (h : rows ∈ plan.results store) : rows.length ≤ (store.rows plan.relation).length := by
  induction plan generalizing rows with
  | source relation =>
    obtain ⟨_, rfl, hperm⟩ := h
    rw [hperm.length_eq, List.length_map]
    exact le_rfl
  | filter predicate p ih | ofType subtype p ih =>
    obtain ⟨xs, hxs, rfl⟩ := h
    exact (List.length_filter_le _ _).trans (ih hxs)
  | project columns p ih =>
    obtain ⟨xs, hxs, rfl⟩ := h
    rw [List.length_map]
    exact ih hxs
  | sort keys p ih =>
    obtain ⟨xs, hxs, hperm, -⟩ := h
    rw [hperm.length_eq]
    exact ih hxs
  | skip count p ih =>
    obtain ⟨xs, hxs, rfl⟩ := h
    rw [List.length_drop]
    exact (Nat.sub_le _ _).trans (ih hxs)
  | take count p ih =>
    obtain ⟨xs, hxs, rfl⟩ := h
    rw [List.length_take]
    exact (Nat.min_le_right _ _).trans (ih hxs)

end Plan

end EntityQuery
