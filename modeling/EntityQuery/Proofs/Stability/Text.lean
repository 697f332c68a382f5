/-
# The text of regrouped filters

A chain of conjuncts is written flat, so its text does not show how the chain is grouped.  Emission
never looks into a predicate either: two plans that differ in the grouping of their filters only
(`Plan.Regrouped`) become statements that differ in the grouping of their WHERE clauses only
(`Select.Alike`), under the same aliases.

* `Expr.sql_eq_of_conjuncts_eq`: predicates with the same conjuncts have the same text;
* `Emission.agree_statement`: regrouped plans become alike statements; a plan without type filters
  whose cuts stand on their sorts does become one;
* `Plan.emit_regrouped`: hence they have the same text.
-/
import EntityQuery.Compiler
import EntityQuery.Proofs.Chains
import EntityQuery.Proofs.Select.Emission
import EntityQuery.Proofs.Stability.Refiltered

namespace EntityQuery

/-! ## Chains -/

namespace Expr

/-- The conjuncts of a conjunction are those of its parts. -/
theorem conjuncts_and (l r : Expr) : (and l r).conjuncts = l.conjuncts ++ r.conjuncts :=
  chain_binary .and l r

/-- Induction over chains: an expression is a conjunction or its own only conjunct. -/
@[elab_as_elim]
theorem conjunctInduction {motive : Expr → Prop} (e : Expr)
    (conjunction : ∀ l r, motive l → motive r → motive (and l r))
    (single : ∀ e, e.conjuncts = [e] → motive e) : motive e :=
  chainInduction .and e conjunction single

/-- An expression has a conjunct, itself if it is no conjunction. -/
theorem conjuncts_ne_nil (e : Expr) : e.conjuncts ≠ [] :=
  e.chain_ne_nil .and

/-- Replacing columns replaces them in each conjunct, which may come apart by it. -/
theorem conjuncts_substitute (f : String → Expr) (e : Expr) :
    (e.substitute f).conjuncts = e.conjuncts.flatMap fun c => (c.substitute f).conjuncts := by
  induction e using conjunctInduction with
  | conjunction l r ihl ihr =>
    rw [substitute, conjuncts_and, conjuncts_and, ihl, ihr, List.flatMap_append]
  | single e h => rw [h, List.flatMap_singleton]

/-- The text of an expression as an operand of a conjunction. -/
def conjunctSql (item : String) (e : Expr) : String :=
  bracketed (e.bareUnder .and) (e.sql item)

/-- The text of an operand of a conjunction is that of its conjuncts. -/
theorem conjunctSql_eq_intercalate (item : String) (e : Expr) :
    e.conjunctSql item = String.intercalate " AND " (e.conjuncts.map (conjunctSql item)) := by
  induction e using conjunctInduction with
  | conjunction l r ihl ihr =>
    have hl : l.conjuncts.map (conjunctSql item) ≠ [] := by simpa using l.conjuncts_ne_nil
    have hr : r.conjuncts.map (conjunctSql item) ≠ [] := by simpa using r.conjuncts_ne_nil
    have hand : " " ++ (Op.and.sql ++ " ") = " AND " := rfl
    rw [conjuncts_and, List.map_append, String.intercalate_append_of_ne_nil hl hr, ← ihl, ← ihr, ← hand]
    change conjunctSql item l ++ " " ++ Op.and.sql ++ " " ++ conjunctSql item r = _
    simp only [String.append_assoc]
  | single e h =>
    rw [h]
    rfl

/-- A conjunction is written without brackets. -/
theorem sql_and (item : String) (l r : Expr) :
    (and l r).sql item = String.intercalate " AND " ((and l r).conjuncts.map (conjunctSql item)) :=
  conjunctSql_eq_intercalate item (and l r)

/-- **Predicates with the same conjuncts have the same text.** -/
theorem sql_eq_of_conjuncts_eq {e e' : Expr} (h : e'.conjuncts = e.conjuncts) (item : String) :
    e'.sql item = e.sql item := by
  have hlength : ∀ l r e : Expr, (and l r).conjuncts ≠ [e] := chain_binary_ne_singleton .and
  -- a conjunction has more conjuncts than one, so both are conjunctions or neither is
  cases e using conjunctInduction with
  | conjunction l r =>
    cases e' using conjunctInduction with
    | conjunction l' r' => rw [sql_and, sql_and, h]
    | single e' he' => exact absurd (h.symm.trans he') (hlength l r e')
  | single e he =>
    cases e' using conjunctInduction with
    | conjunction l' r' => exact absurd (h.trans he) (hlength l' r' e)
    | single e' he' =>
      rw [he, he', List.singleton_inj] at h
      rw [h]

end Expr

/-! ## Alike statements -/

/-- Clauses that differ in the grouping of their WHERE clause only. -/
inductive Clauses.Alike : Clauses → Clauses → Prop where
  | intro (clauses : Clauses) {e e' : Option Expr}
      (h : e'.map Expr.conjuncts = e.map Expr.conjuncts) :
      Alike { clauses with predicate := e } { clauses with predicate := e' }

namespace Clauses.Alike

variable {a b : Clauses}

theorem refl (clauses : Clauses) : Alike clauses clauses := Alike.intro clauses rfl

theorem kind_eq (h : Alike a b) : b.kind = a.kind := by
  cases h
  rfl

theorem columns_eq (h : Alike a b) : b.columns = a.columns := by
  cases h
  rfl

/-- Whether a condition can be added does not depend on how the others are grouped. -/
theorem acceptsFilter_eq (h : Alike a b) : b.acceptsFilter = a.acceptsFilter := by
  cases h
  rfl

theorem acceptsProjection_eq (h : Alike a b) : b.acceptsProjection = a.acceptsProjection := by
  cases h
  rfl

/-- Whether the rows of a statement that cuts are in the order of some keys already. -/
theorem ordered_eq (h : Alike a b) (keys : List SortKey) :
    (b.top.isSome && b.orderBy = b.inlineKeys keys) =
      (a.top.isSome && a.orderBy = a.inlineKeys keys) := by
  cases h
  rfl

/-! Every change of the clauses keeps them alike. -/

/-- Conditions with the same conjuncts can be added to like clauses. -/
theorem addFilter (h : Alike a b) {e e' : Expr} (he : e'.conjuncts = e.conjuncts) :
    Alike (a.addFilter e) (b.addFilter e') := by
  obtain @⟨clauses, existing, existing', hpredicate⟩ := h
  -- the predicate is inlined by the columns, which are the same on both sides
  have hinlined : (e'.substitute clauses.definition).conjuncts =
      (e.substitute clauses.definition).conjuncts := by
    rw [Expr.conjuncts_substitute, Expr.conjuncts_substitute, he]
  refine Alike.intro { clauses with kind := .filter } ?_
  cases existing <;> cases existing' <;>
    simp only [Option.map_none, Option.map_some, reduceCtorEq, Option.some.injEq] at hpredicate
  · exact congrArg some hinlined
  · rw [Option.map_some, Option.map_some, Expr.conjuncts_and, Expr.conjuncts_and, hpredicate]
    exact congrArg (fun added => some (_ ++ added)) hinlined

/-- Columns are defined alike by like clauses. -/
theorem setColumns (h : Alike a b) (columns : List OutputColumn) :
    Alike (a.setColumns columns) (b.setColumns columns) := by
  obtain ⟨clauses, hpredicate⟩ := h
  exact Alike.intro (clauses.setColumns columns) hpredicate

theorem setOrder (h : Alike a b) (keys : List SortKey) :
    Alike (a.setOrder keys) (b.setOrder keys) := by
  obtain ⟨clauses, hpredicate⟩ := h
  exact Alike.intro (clauses.setOrder keys) hpredicate

theorem setTop (h : Alike a b) (count : UInt64) : Alike (a.setTop count) (b.setTop count) := by
  obtain ⟨clauses, hpredicate⟩ := h
  exact Alike.intro (clauses.setTop count) hpredicate

theorem setRowNumber (h : Alike a b) (keys : List SortKey) :
    Alike (a.setRowNumber keys) (b.setRowNumber keys) := by
  obtain ⟨clauses, hpredicate⟩ := h
  exact Alike.intro (clauses.setRowNumber keys) hpredicate

/-- Like clauses drop their order together. -/
theorem dropOrder (h : Alike a b) : Alike a.dropOrder b.dropOrder := by
  obtain ⟨clauses, hpredicate⟩ := h
  unfold Clauses.dropOrder
  simp only
  split
  · exact Alike.intro { clauses with orderBy := [] } hpredicate
  · exact Alike.intro clauses hpredicate

/-- No condition is written before the table of a statement. -/
theorem sqlHead_eq (h : Alike a b) (depth : ℕ) (item : String) :
    b.sqlHead depth item = a.sqlHead depth item := by
  cases h
  rfl

/-- Conditions are written one conjunct after the other, so their grouping is not seen. -/
theorem sqlTail_eq (h : Alike a b) (depth : ℕ) (item : String) :
    b.sqlTail depth item = a.sqlTail depth item := by
  obtain @⟨clauses, e, e', hpredicate⟩ := h
  unfold Clauses.sqlTail
  cases e <;> cases e' <;>
    simp only [Option.map_none, Option.map_some, reduceCtorEq, Option.some.injEq] at hpredicate
  · rfl
  · simp only [Expr.sql_eq_of_conjuncts_eq hpredicate]

end Clauses.Alike

/-- Statements that differ in the grouping of their WHERE clauses only. -/
inductive Select.Alike : Select → Select → Prop where
  | ofTable {a b : Clauses} (table item : String) (h : a.Alike b) :
      Alike (ofTable a table item) (ofTable b table item)
  | ofQuery {a b : Clauses} {s t : Select} (item : String) (h : a.Alike b) (hst : Alike s t) :
      Alike (ofQuery a s item) (ofQuery b t item)

namespace Select.Alike

variable {s t : Select}

/-- The outermost clauses of like statements are alike. -/
theorem clauses (h : Alike s t) : s.clauses.Alike t.clauses := by
  cases h with
  | ofTable _ _ h | ofQuery _ h _ => exact h

/-- Like changes to the outermost level leave statements alike. -/
protected theorem map (h : Alike s t) {f g : Clauses → Clauses}
    (hfg : ∀ a b : Clauses, a.Alike b → (f a).Alike (g b)) : Alike (s.map f) (t.map g) := by
  cases h with
  | ofTable table item h => exact Alike.ofTable table item (hfg _ _ h)
  | ofQuery item h hst => exact Alike.ofQuery item (hfg _ _ h) hst

/-- **Like statements have the same text**, level by level. -/
theorem sqlAt_eq (h : Alike s t) (depth : ℕ) : t.sqlAt depth = s.sqlAt depth := by
  induction h generalizing depth with
  | ofTable table item h => simp only [sqlAt, h.sqlHead_eq, h.sqlTail_eq]
  | ofQuery item h _ ih => simp only [sqlAt, h.sqlHead_eq, h.sqlTail_eq, ih]

end Select.Alike

/-! ## Regrouped plans -/

/-- Plans that differ in the grouping of the conjuncts of their filters only. -/
abbrev Plan.Regrouped : Plan → Plan → Prop := Refiltered fun e e' => e'.conjuncts = e.conjuncts

theorem Plan.Regrouped.refl (plan : Plan) : Regrouped plan plan :=
  Refiltered.refl (fun e => Eq.refl e.conjuncts) plan

namespace Emission

/-! ## Two emissions side by side -/

section Agree

variable {α β γ δ : Type} {R : α → β → Prop} {S : γ → δ → Prop}

/-- Whatever aliases are in use, both succeed, give out the same aliases, and have results in a
relation. -/
def Agree (R : α → β → Prop) (x : Emission α) (y : Emission β) : Prop :=
  ∀ counters, ∃ a b next,
    x.run counters = (.ok a, next) ∧ y.run counters = (.ok b, next) ∧ R a b

theorem Agree.pure {a : α} {b : β} (h : R a b) : Agree R (pure a) (pure b) :=
  fun counters => ⟨a, b, counters, rfl, rfl, h⟩

/-- Emissions that agree use up the same aliases, so what follows starts from the same state. -/
theorem Agree.bind {x : Emission α} {y : Emission β} {f : α → Emission γ} {g : β → Emission δ}
    (h : Agree R x y) (hfg : ∀ a b, R a b → Agree S (f a) (g b)) :
    Agree S (x >>= f) (y >>= g) := by
  intro counters
  obtain ⟨a, b, middle, hx, hy, hab⟩ := h counters
  obtain ⟨c, d, next, hf, hg, hcd⟩ := hfg a b hab middle
  exact ⟨c, d, next, by rw [run_bind, hx]; exact hf, by rw [run_bind, hy]; exact hg, hcd⟩

end Agree

variable {s t : Select} {model : Model}

theorem agree_takeAlias (kind : StatementKind) : Agree Eq (takeAlias kind) (takeAlias kind) :=
  fun counters => ⟨counters.next kind, counters.next kind, counters.advance kind, rfl, rfl, rfl⟩

/-- Like statements are wrapped under the same alias. -/
theorem agree_wrap (h : s.Alike t) (kind : StatementKind) :
    Agree Select.Alike (wrap kind s) (wrap kind t) := by
  unfold wrap
  rw [h.clauses.kind_eq, h.clauses.columns_eq]
  refine Agree.bind (agree_takeAlias _) fun item _ hitem => Agree.pure ?_
  obtain rfl := hitem
  exact .ofQuery item (.refl _) (h.map fun _ _ => Clauses.Alike.dropOrder)

/-- Like statements are both wrapped for a projection or both not. -/
theorem agree_projectable (h : s.Alike t) :
    Agree Select.Alike (projectable s) (projectable t) := by
  unfold projectable
  rw [h.clauses.acceptsProjection_eq]
  split
  · exact Agree.pure h
  · exact agree_wrap h .project

/-- A filter is added to both statements or wraps both. -/
theorem agree_filter (h : s.Alike t) {e e' : Expr} (he : e'.conjuncts = e.conjuncts) :
    Agree Select.Alike (filter e s) (filter e' t) := by
  have hadd : ∀ {s t : Select}, s.Alike t →
      (s.map (·.addFilter e)).Alike (t.map (·.addFilter e')) :=
    fun h => h.map fun _ _ hclauses => hclauses.addFilter he
  unfold filter
  rw [h.clauses.acceptsFilter_eq]
  split
  · exact Agree.pure (hadd h)
  · exact Agree.bind (agree_wrap h .filter) fun _ _ h => Agree.pure (hadd h)

/-- The same columns over like statements. -/
theorem agree_project (h : s.Alike t) (columns : List OutputColumn) :
    Agree Select.Alike (project columns s) (project columns t) :=
  Agree.bind (agree_projectable h) fun _ _ h =>
    Agree.pure (h.map fun _ _ hclauses => hclauses.setColumns columns)

theorem agree_sort (h : s.Alike t) (keys : List SortKey) :
    Agree Select.Alike (sort keys s) (sort keys t) := by
  have hset : ∀ {s t : Select}, s.Alike t →
      (s.map (·.setOrder keys)).Alike (t.map (·.setOrder keys)) :=
    fun h => h.map fun _ _ hclauses => hclauses.setOrder keys
  unfold sort
  rw [h.clauses.acceptsProjection_eq, h.clauses.ordered_eq keys]
  split
  · exact Agree.pure (hset h)
  · split
    · exact Agree.pure h
    · exact Agree.bind (agree_wrap h .project) fun _ _ h => Agree.pure (hset h)

theorem agree_window (h : s.Alike t) (count : UInt64) (keys : List SortKey) :
    Agree Select.Alike (window count keys s) (window count keys t) := by
  refine Agree.bind (agree_projectable h) fun _ _ h => ?_
  refine Agree.bind (agree_wrap (h.map fun _ _ hclauses => hclauses.setRowNumber keys) .skip)
    fun _ _ h => Agree.pure (h.map fun a b hclauses => ?_)
  obtain ⟨clauses, -⟩ := hclauses
  exact .intro clauses rfl

/-- The rows of a known entity set are emitted. -/
theorem agree_extent {relation : String} {set : EntitySet}
    (hset : model.relation relation = .ok set) :
    Agree Select.Alike (extent model relation) (extent model relation) := by
  unfold extent
  rw [hset]
  refine Agree.bind (R := Eq) (Agree.pure rfl) fun found _ hfound => ?_
  obtain rfl := hfound
  refine Agree.bind (agree_takeAlias _) fun item _ hitem => Agree.pure ?_
  obtain rfl := hitem
  exact .ofTable _ _ (.refl _)

/-- **Regrouped plans become alike statements** under the same aliases, and none of them fails: the
entity set is known, no type filter is left, and every cut stands on its sort. -/
theorem agree_statement {p q : Plan} {set : EntitySet} (hset : model.relation p.relation = .ok set)
    (hfree : p.typeFree = true) (hcanonical : p.checkCanonical = .ok ()) (h : p.Regrouped q) :
    Agree Select.Alike (statement model p) (statement model q) := by
  fun_induction statement model p generalizing q with
  | case1 relation =>
    cases h
    exact agree_extent hset
  | case2 e p ih =>
    cases h with
    | filter he h =>
      exact Agree.bind (ih hset hfree hcanonical h) fun _ _ hst => agree_filter hst he
  | case3 columns p ih =>
    cases h with
    | project _ h =>
      exact Agree.bind (ih hset hfree hcanonical h) fun _ _ hst => agree_project hst columns
  | case4 keys p ih =>
    cases h with
    | sort _ h => exact Agree.bind (ih hset hfree hcanonical h) fun _ _ hst => agree_sort hst keys
  | case5 count keys p ih =>
    cases h with
    | skip _ h =>
      cases h with
      | sort _ h =>
        exact Agree.bind (ih hset hfree hcanonical h) fun _ _ hst => agree_window hst count keys
  | case7 count keys p ih =>
    cases h with
    | take _ h =>
      cases h with
      | sort _ h =>
        refine Agree.bind (ih hset hfree hcanonical h) fun _ _ hst => ?_
        refine Agree.bind (agree_projectable hst) fun _ _ hst => Agree.pure ?_
        exact hst.map fun _ _ hclauses => (hclauses.setOrder keys).setTop count
  | case8 count offset keys p ih =>
    cases h with
    | take _ h =>
      cases h with
      | skip _ h =>
        cases h with
        | sort _ h =>
          refine Agree.bind (ih hset hfree hcanonical h) fun _ _ hst => ?_
          refine Agree.bind (agree_window hst offset keys) fun _ _ hst => Agree.pure ?_
          exact hst.map fun _ _ hclauses => (hclauses.setOrder keys).setTop count
  -- what has no statement is excluded: a cut that does not stand on its sort, and a type filter
  | case6 count p hsort =>
    cases p <;> simp_all [Plan.checkCanonical, Plan.isSort]
  | case9 count offset p hsort =>
    cases p <;> simp_all [Plan.checkCanonical, Plan.truncationKeys]
  | case10 count p hsort hskip =>
    cases p <;> simp_all [Plan.checkCanonical, Plan.truncationKeys]
  | case11 subtype p => cases hfree

end Emission

/-- **Regrouped plans have the same text.** -/
theorem Plan.emit_regrouped {model : Model} {p q : Plan} {set : EntitySet}
    (hset : model.relation p.relation = .ok set) (hfree : p.typeFree = true)
    (hcanonical : p.checkCanonical = .ok ()) (h : p.Regrouped q) :
    ∃ sql, p.emit model = .ok sql ∧ q.emit model = .ok sql := by
  obtain ⟨s, t, next, hs, ht, hst⟩ :=
    Emission.agree_statement hset hfree hcanonical h AliasCounters.initial
  have hp : p.statement model = .ok s := congrArg Prod.fst hs
  have hq : q.statement model = .ok t := congrArg Prod.fst ht
  refine ⟨s.sql, by rw [emit, hp]; rfl, ?_⟩
  rw [emit, hq, Select.sql, ← hst.sqlAt_eq 0]
  rfl

end EntityQuery
