/-
# Names of output columns

The names that a derived table shows come from the entity set, from types, from projections, from
keys that are carried through projections, and from the row number of a skipping stage.  All but the
last are kept apart: `Plan.KeepsApart` says that the columns of every projection have distinct names
and that some reserved names are not among the names that a plan gives to columns.

* `Plan.keepsApart_of_step`, `Plan.keepsApart_of_resolveUnder`: lifting and resolving keep this,
  since a carried key gets a fresh name;
* `Emission.Emits.apart`: every level of a statement has distinct columns then, and none of the
  reserved names;
* `Plan.compile_distinct_names`: derived tables show distinct names, if the name of the row number
  is not in use.

A column of that name is shown twice, once as the row number (`Plan.compile_distinct_names_clash`).
-/
import EntityQuery.Proofs.Compiler
import EntityQuery.Proofs.Select.Form

namespace EntityQuery

namespace Plan

/-! ## Names kept apart -/

/-- The columns of every projection have distinct names. -/
def DistinctColumns : Plan → Prop
  | source _ => True
  | project columns p => (columnNames columns).Nodup ∧ p.DistinctColumns
  | filter _ p | sort _ p | skip _ p | take _ p | ofType _ p => p.DistinctColumns

instance DistinctColumns.decidable : (plan : Plan) → Decidable plan.DistinctColumns
  | source _ => isTrue trivial
  | project columns p =>
    have := DistinctColumns.decidable p
    inferInstanceAs (Decidable ((columnNames columns).Nodup ∧ p.DistinctColumns))
  | filter _ p | sort _ p | skip _ p | take _ p | ofType _ p => DistinctColumns.decidable p

/-- The columns of every projection have distinct names, and a reserved name is no column of the
entity set, of a type that is asked for or of a projection, and no sort key by itself. -/
def KeepsApart (model : Model) (reserved : List String) : Plan → Prop
  | source relation => ∀ name ∈ reserved, name ∉ model.setColumns relation
  | project columns p =>
    (columnNames columns).Nodup ∧ (∀ name ∈ reserved, name ∉ columnNames columns) ∧
      p.KeepsApart model reserved
  | sort keys p =>
    (∀ name ∈ reserved, ∀ key ∈ keys, key.expr ≠ .column name) ∧ p.KeepsApart model reserved
  | ofType subtype p =>
    (∀ name ∈ reserved, name ∉ model.typeColumns subtype) ∧ p.KeepsApart model reserved
  | filter _ p | skip _ p | take _ p => p.KeepsApart model reserved

instance KeepsApart.decidable (model : Model) (reserved : List String) :
    (plan : Plan) → Decidable (plan.KeepsApart model reserved)
  | source relation =>
    inferInstanceAs (Decidable (∀ name ∈ reserved, name ∉ model.setColumns relation))
  | project columns p =>
    have := KeepsApart.decidable model reserved p
    inferInstanceAs (Decidable ((columnNames columns).Nodup ∧
      (∀ name ∈ reserved, name ∉ columnNames columns) ∧ p.KeepsApart model reserved))
  | sort keys p =>
    have := KeepsApart.decidable model reserved p
    inferInstanceAs (Decidable ((∀ name ∈ reserved, ∀ key ∈ keys, key.expr ≠ .column name) ∧
      p.KeepsApart model reserved))
  | ofType subtype p =>
    have := KeepsApart.decidable model reserved p
    inferInstanceAs (Decidable ((∀ name ∈ reserved, name ∉ model.typeColumns subtype) ∧
      p.KeepsApart model reserved))
  | filter _ p | skip _ p | take _ p => KeepsApart.decidable model reserved p

section KeepsApart

variable {model : Model} {reserved : List String} {p q : Plan}

/-- Where no name is reserved, only the columns of projections count. -/
theorem keepsApart_nil (h : p.DistinctColumns) : p.KeepsApart model [] := by
  induction p with
  | source relation => exact nofun
  | project columns p ih => exact ⟨h.1, nofun, ih h.2⟩
  | sort _ p ih | ofType _ p ih => exact ⟨nofun, ih h⟩
  | filter _ p ih | skip _ p ih | take _ p ih => exact ih h

/-- Adjusting changes no column name. -/
theorem keepsApart_adjust (mode : NullMode) (h : p.KeepsApart model reserved) :
    (p.adjust mode).KeepsApart model reserved := by
  induction p with
  | source relation => exact h
  | project columns p ih => exact ⟨h.1, h.2.1, ih h.2.2⟩
  | sort _ p ih | ofType _ p ih => exact ⟨h.1, ih h.2⟩
  | filter _ p ih | skip _ p ih | take _ p ih => exact ih h

/-- A type filter becomes a projection to the columns of its type, which have distinct names. -/
theorem keepsApart_of_resolveUnder {shaping : Shaping} {outer : Option String}
    (hp : p.KeepsApart model reserved) (h : p.resolveUnder model shaping outer = .ok q) :
    q.KeepsApart model reserved := by
  induction p generalizing outer q with
  | source relation =>
    obtain ⟨set, -, h⟩ := exists_ok_of_bind_eq_ok h
    split at h
    · obtain rfl := Except.ok.inj h
      exact hp
    · obtain rfl := Except.ok.inj h
      exact hp
  | filter _ p ih | skip _ p ih | take _ p ih =>
    obtain ⟨input, hinput, rfl⟩ := exists_ok_of_bind_pure_eq_ok h
    have hresolved : input.KeepsApart model reserved := ih hp hinput
    exact hresolved
  | project columns p ih =>
    obtain ⟨input, hinput, rfl⟩ := exists_ok_of_bind_pure_eq_ok h
    exact ⟨hp.1, hp.2.1, ih hp.2.2 hinput⟩
  | sort keys p ih =>
    obtain ⟨input, hinput, rfl⟩ := exists_ok_of_bind_pure_eq_ok h
    exact ⟨hp.1, ih hp.2 hinput⟩
  | ofType subtype p ih =>
    obtain ⟨set, e, input, -, -, hinput, rfl⟩ := resolveUnder_ofType_eq_ok h
    have hresolved : input.KeepsApart model reserved := ih hp.2 hinput
    have hrestricted : (restrictedBy model set e input).KeepsApart model reserved := by
      unfold restrictedBy
      split <;> exact hresolved
    cases outer with
    | none =>
      refine ⟨?_, ?_, hrestricted⟩
      · rw [Model.columnNames_shape]
        exact Model.nodup_typeColumns model subtype
      · rw [Model.columnNames_shape]
        exact hp.1
    | some outer => exact hrestricted

/-- Keys that are restated are no reserved columns. -/
theorem keys_of_truncationKeys {keys : List SortKey} (hp : p.KeepsApart model reserved)
    (h : p.truncationKeys = some keys) :
    ∀ name ∈ reserved, ∀ key ∈ keys, key.expr ≠ .column name := by
  unfold truncationKeys at h
  split at h
  · obtain rfl := Option.some.inj h
    exact hp.1
  · obtain rfl := Option.some.inj h
    exact hp.1
  · obtain rfl := Option.some.inj h
    exact hp.1
  · cases h

/-- A rule adds no column of a reserved name. -/
theorem keepsApart_of_rule (hreserved : ∀ name ∈ reserved, neverFresh name = true) (h : Rule p q)
    (hp : p.KeepsApart model reserved) : q.KeepsApart model reserved := by
  cases h with
  | mergeProjections outer inner p =>
    obtain ⟨hnodup, hfree, -, -, hinput⟩ := hp
    have hnames : columnNames (compose outer inner) = columnNames outer :=
      columnNames_eq_of_headers (headers_map_substitute _ outer)
    exact ⟨hnames ▸ hnodup, hnames ▸ hfree, hinput⟩
  | sortOverProjection columns keys p =>
    obtain ⟨hnodup, hfree, hkeys, hinput⟩ := hp
    have hcarried := carryKeys_spec keys hnodup
    have hnew : ∀ name ∈ reserved, name ∉ columnNames (carryKeys columns keys).1 :=
      fun name hname =>
        hcarried.notMem_names (hreserved name hname) (hfree name hname) (hkeys name hname)
    refine ⟨fun name hname key hkey hcolumn => ?_, hcarried.nodup, hnew, hinput⟩
    -- the new key is a carried column, and these have no reserved name
    have hread : name ∈ key.expr.references := by
      rw [hcolumn]
      exact List.mem_cons_self
    exact hnew name hname (hcarried.lifted_references key hkey hread)
  | sortOverType subtype keys p => exact ⟨hp.2.1, hp.1, hp.2.2⟩
  | dropShadowedSort outer inner p => exact ⟨hp.1, hp.2.2⟩
  | fuseFilters | sortOverFilter | projectionBelowSkip | projectionBelowTake | mergeSkips
  | skipBelowTake | mergeTakes => exact hp

/-- **No step brings a name into a plan twice.** -/
theorem keepsApart_of_step {consumer : Consumer}
    (hreserved : ∀ name ∈ reserved, neverFresh name = true) (h : Step consumer p q)
    (hp : p.KeepsApart model reserved) : q.KeepsApart model reserved := by
  induction h with
  | rule h => exact keepsApart_of_rule hreserved h hp
  | restate h => exact ⟨keys_of_truncationKeys hp h, hp⟩
  | project columns _ ih => exact ⟨hp.1, hp.2.1, ih hp.2.2⟩
  | sort _ _ ih | ofType _ _ ih => exact ⟨hp.1, ih hp.2⟩
  | filter _ _ ih | skip _ _ ih | take _ _ ih => exact ih hp

/-- Preparing a plan keeps its columns apart. -/
theorem keepsApart_of_prepare {options : Options}
    (hreserved : ∀ name ∈ reserved, neverFresh name = true) (hp : p.KeepsApart model reserved)
    (h : p.prepare model options = .ok q) : q.KeepsApart model reserved := by
  obtain ⟨resolved, hresolve, hlift⟩ := prepare_eq_ok h
  obtain ⟨-, rfl, -⟩ := lift_eq_ok_iff.mp hlift
  have hresolved := keepsApart_of_resolveUnder (keepsApart_adjust options.nulls hp) hresolve
  have hsteps := sweepUpTo_steps options.sweeps resolved
  generalize sweepUpTo options.sweeps resolved = lifted at hsteps
  induction hsteps with
  | refl => exact hresolved
  | tail _ hlast ih => exact keepsApart_of_step hreserved hlast ih

end KeepsApart

end Plan

/-! ## Statements -/

/-- Some columns have distinct names, none of them reserved. -/
def ApartFrom (reserved : List String) (columns : List OutputColumn) : Prop :=
  (columnNames columns).Nodup ∧ ∀ name ∈ reserved, name ∉ columnNames columns

/-- Whether columns are apart is a matter of their headers. -/
theorem ApartFrom.of_headers {reserved : List String} {columns columns' : List OutputColumn}
    (h : ApartFrom reserved columns) (hheaders : headers columns' = headers columns) :
    ApartFrom reserved columns' := by
  rw [ApartFrom, columnNames_eq_of_headers hheaders]
  exact h

/-- A derived table shows distinct names, if its columns do not have the name of the row number. -/
theorem Select.nodup_outputNames {s : Select} (h : ApartFrom [rowNumberColumn] s.clauses.columns) :
    s.outputNames.Nodup := by
  obtain ⟨hnodup, hfree⟩ := h
  rw [outputNames]
  split
  · have hnumber : rowNumberColumn ∉ columnNames s.clauses.columns :=
      hfree rowNumberColumn List.mem_cons_self
    exact List.Nodup.append hnodup (List.nodup_singleton _) (List.disjoint_singleton.mpr hnumber)
  · rw [List.append_nil]
    exact hnodup

namespace Emission

open Select

variable {model : Model} {reserved : List String} {plan : Plan} {s t : Select}

/-- A statement around another one adds no column. -/
theorem apart_derived (h : ∀ level ∈ s.levels, ApartFrom reserved level.clauses.columns)
    (kind : StatementKind) (item : String) :
    ∀ level ∈ (derived kind s item).levels, ApartFrom reserved level.clauses.columns := by
  obtain ⟨houtermost, hbelow⟩ := List.forall_mem_cons.mp h
  refine List.forall_mem_cons.mpr ⟨houtermost.of_headers (headers_derived kind s item), ?_⟩
  refine (forall_levels_map Clauses.dropOrder s).mpr ⟨?_, hbelow⟩
  rw [clauses_map, Clauses.columns_dropOrder]
  exact houtermost

theorem Opened.apart (ht : Opened s t)
    (h : ∀ level ∈ s.levels, ApartFrom reserved level.clauses.columns) :
    ∀ level ∈ t.levels, ApartFrom reserved level.clauses.columns := by
  cases ht with
  | itself => exact h
  | around kind s item => exact apart_derived h kind item

/-- What changes no name of a statement keeps its names apart. -/
theorem apart_map {f : Clauses → Clauses}
    (h : ∀ level ∈ s.levels, ApartFrom reserved level.clauses.columns)
    (hf : headers (f s.clauses).columns = headers s.clauses.columns) :
    ∀ level ∈ (s.map f).levels, ApartFrom reserved level.clauses.columns := by
  obtain ⟨houtermost, hbelow⟩ := List.forall_mem_cons.mp h
  refine (forall_levels_map f s).mpr ⟨?_, hbelow⟩
  rw [clauses_map]
  exact houtermost.of_headers hf

/-- **Names are kept apart on every level** of the statement of a plan that keeps them apart. -/
theorem Emits.apart (h : Emits model plan s) (hplan : plan.KeepsApart model reserved) :
    ∀ level ∈ s.levels, ApartFrom reserved level.clauses.columns := by
  induction h with
  | @source relation set hset item =>
    refine List.forall_mem_cons.mpr ⟨?_, nofun⟩
    have hcolumns : model.setColumns relation = model.relationColumns set := by
      rw [Model.setColumns, hset]
    rw [Select.clauses, ApartFrom, columnNames_passThrough]
    exact ⟨Model.nodup_eraseDups, hcolumns ▸ hplan⟩
  | filter predicate hp ht ih => exact apart_map (ht.apart (ih hplan)) rfl
  | @project columns p s t hp ht ih =>
    obtain ⟨hnodup, hfree, hinput⟩ := hplan
    obtain ⟨-, hbelow⟩ := List.forall_mem_cons.mp (ht.apart (ih hinput))
    refine (forall_levels_map _ t).mpr ⟨?_, hbelow⟩
    rw [clauses_map]
    exact ApartFrom.of_headers ⟨hnodup, hfree⟩ (headers_map_substitute _ columns)
  | sort keys hp ht ih => exact apart_map (ht.apart (ih hplan.2)) rfl
  | sorted hp _ ih => exact ih hplan.2
  | @skip count keys p s t hp ht item ih =>
    have hnumbered := apart_map (f := (·.setRowNumber keys)) (ht.apart (ih hplan.2)) rfl
    exact apart_map (apart_derived hnumbered .skip item) rfl
  | take count keys hp ht ih => exact apart_map (ht.apart (ih hplan.2)) rfl
  | takeSkip count hp ih => exact apart_map (ih hplan) rfl

end Emission

/-! ## Main statement -/

namespace Plan

/-- **Derived tables show distinct names.**  The text of a compiled plan whose projections have
distinct columns is that of a statement in which every level has distinct columns, hidden ones
counted.  If moreover the name of the row number is no column of the entity set, of a type asked for
or of a projection and no sort key, then no derived table shows a name twice, its row number
counted. -/
theorem compile_distinct_names (model : Model) (options : Options) (plan : Plan) (sql : String)
    (hdistinct : plan.DistinctColumns) (hcompile : plan.compile model options = .ok sql) :
    ∃ prepared statement, plan.prepare model options = .ok prepared ∧
      prepared.statement model = .ok statement ∧ sql = statement.sql ∧
      (∀ level ∈ statement.levels, (columnNames level.clauses.columns).Nodup) ∧
      (plan.KeepsApart model [rowNumberColumn] →
        ∀ table ∈ statement.derivedTables, table.outputNames.Nodup) := by
  obtain ⟨prepared, hprepare, -⟩ := exists_ok_of_bind_eq_ok hcompile
  obtain ⟨statement, hstatement, hsql⟩ := compile_eq_ok hprepare hcompile
  have hemits := emits_of_statement hstatement
  refine ⟨prepared, statement, hprepare, hstatement, hsql, fun level hlevel => ?_,
    fun hplan table htable => ?_⟩
  · have hprepared : prepared.KeepsApart model [] :=
      keepsApart_of_prepare (List.forall_mem_nil _) (keepsApart_nil hdistinct) hprepare
    exact (hemits.apart hprepared level hlevel).1
  · have hprepared := keepsApart_of_prepare (by decide) hplan hprepare
    exact Select.nodup_outputNames
      (hemits.apart hprepared table (List.mem_cons_of_mem statement htable))

/-- A page of the names of dogs, with a hidden key and a row number. -/
theorem compile_distinct_names_dogNames :
    dogNames.DistinctColumns ∧ dogNames.KeepsApart animalsModel [rowNumberColumn] ∧
      ∃ sql, dogNames.compile animalsModel {} = .ok sql ∧
        ∃ prepared statement, dogNames.prepare animalsModel {} = .ok prepared ∧
          prepared.statement animalsModel = .ok statement ∧ sql = statement.sql ∧
          (∀ level ∈ statement.levels, (columnNames level.clauses.columns).Nodup) ∧
          (dogNames.KeepsApart animalsModel [rowNumberColumn] →
            ∀ table ∈ statement.derivedTables, table.outputNames.Nodup) :=
  ⟨by decide, by decide, _, rfl,
    compile_distinct_names animalsModel {} dogNames _ (by decide) rfl⟩

/-- A model of owners that have a number of their own. -/
def numberedModel : Model where
  sets := [{ name := "Owners", table := "dbo.Owners", root := "Owner" }]
  types := [{ name := "Owner", properties := [⟨"Id", "Id"⟩, ⟨"row_number", "row_number"⟩] }]

/-- A skip numbers the rows under the name of a column that is there already. -/
theorem compile_distinct_names_clash :
    let plan := skip 1 (sort [⟨.column "Id", .asc⟩] (source "Owners"))
    plan.DistinctColumns ∧ ∃ prepared statement sql,
      plan.compile numberedModel {} = .ok sql ∧ plan.prepare numberedModel {} = .ok prepared ∧
      prepared.statement numberedModel = .ok statement ∧ sql = statement.sql ∧
      ∃ table ∈ statement.derivedTables,
        table.outputNames = ["Id", "row_number", "row_number"] :=
  ⟨by decide, _, _, _, rfl, rfl, rfl, rfl, _, List.mem_cons_self, by decide⟩

end Plan

end EntityQuery
