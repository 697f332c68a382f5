/-
# Plans without empty lists

Three lists of a plan become lists of SQL text that must not be empty: the columns of a projection,
of which the caller has to see one, the keys of a sort, and the values of a membership test.  A plan
is `Filled` if none of them is empty, and it is filled still when it has been prepared.

* `Expr.Filled`: no membership test of an expression has an empty list;
* `Model.filled_subtreePredicate`, `Model.columnsFilled_shape`: what type filters become;
* `Plan.filled_of_step`, `Plan.filled_of_resolveUnder`: lifting and resolving keep plans filled;
* `Plan.filled_of_prepare`: so does preparing.
-/
import EntityQuery.Proofs.Acceptance
import EntityQuery.Proofs.Hierarchy
import EntityQuery.Proofs.Select.Columns
import EntityQuery.Proofs.Select.Order

namespace EntityQuery

open Relation

/-! ## Expressions -/

namespace Expr

/-- The lists of the membership tests of an expression, from left to right. -/
def lists : Expr → List (List Value)
  | column _ | literal _ => []
  | binary _ l r => l.lists ++ r.lists
  | not e | isNull e | isNotNull e => e.lists
  | inList e values => values :: e.lists
  | caseWhen c r => c.lists ++ r.lists

/-- No membership test has an empty list. -/
def Filled (e : Expr) : Prop :=
  [] ∉ e.lists

section Filled

variable {e l r c : Expr} {op : Op} {es : List Expr}

@[simp] theorem filled_column (name : String) : (column name).Filled := List.not_mem_nil

@[simp] theorem filled_literal (v : Value) : (literal v).Filled := List.not_mem_nil

@[simp] theorem filled_binary : (binary op l r).Filled ↔ l.Filled ∧ r.Filled :=
  (not_congr List.mem_append).trans not_or

@[simp] theorem filled_not : (not e).Filled ↔ e.Filled := Iff.rfl

@[simp] theorem filled_isNull : (isNull e).Filled ↔ e.Filled := Iff.rfl

@[simp] theorem filled_isNotNull : (isNotNull e).Filled ↔ e.Filled := Iff.rfl

@[simp] theorem filled_inList {values : List Value} :
    (inList e values).Filled ↔ values ≠ [] ∧ e.Filled :=
  (not_congr List.mem_cons).trans (not_or.trans (and_congr_left' ne_comm))

@[simp] theorem filled_caseWhen : (caseWhen c r).Filled ↔ c.Filled ∧ r.Filled :=
  (not_congr List.mem_append).trans not_or

/-- What is put in the place of a column has to be filled. -/
theorem Filled.substitute {f : String → Expr} (h : e.Filled) (hf : ∀ name, (f name).Filled) :
    (e.substitute f).Filled := by
  induction e with
  | column name => exact hf name
  | literal v => exact h
  | binary op l r ihl ihr =>
    obtain ⟨hl, hr⟩ := filled_binary.mp h
    exact filled_binary.mpr ⟨ihl hl, ihr hr⟩
  | not e ih | isNull e ih | isNotNull e ih => exact ih h
  | inList e values ih =>
    obtain ⟨hvalues, he⟩ := filled_inList.mp h
    exact filled_inList.mpr ⟨hvalues, ih he⟩
  | caseWhen c r ihc ihr =>
    obtain ⟨hc, hr⟩ := filled_caseWhen.mp h
    exact filled_caseWhen.mpr ⟨ihc hc, ihr hr⟩

/-- A chain built up from the left is filled if its members are. -/
theorem Filled.foldl (h : e.Filled) (hes : ∀ d ∈ es, d.Filled) :
    (es.foldl (binary op) e).Filled := by
  induction es generalizing e with
  | nil => exact h
  | cons d es ih =>
    obtain ⟨hd, hes⟩ := List.forall_mem_cons.mp hes
    exact ih (filled_binary.mpr ⟨h, hd⟩) hes

/-- An expression joined from others is filled if they are. -/
theorem filled_joinedBy (h : joinedBy op es = some e) (hes : ∀ d ∈ es, d.Filled) : e.Filled := by
  cases es with
  | nil => cases h
  | cons d es =>
    obtain ⟨hd, hes⟩ := List.forall_mem_cons.mp hes
    obtain rfl := Option.some.inj h
    exact hd.foldl hes

/-- The members of a chain are filled. -/
theorem Filled.of_mem_chain (h : e.Filled) (hc : c ∈ e.chain op) : c.Filled := by
  fun_induction chain op e with
  | case1 l r ihl ihr =>
    obtain ⟨hl, hr⟩ := filled_binary.mp h
    rcases List.mem_append.mp hc with hc | hc
    · exact ihl hl hc
    · exact ihr hr hc
  | case2 | case3 =>
    rw [List.mem_singleton.mp hc]
    exact h

/-- The expansion of a comparison repeats its operands. -/
theorem filled_of_hostComparison (h : c.hostComparison? = some e) (hc : c.Filled) : e.Filled := by
  unfold hostComparison? at h
  split at h
  next l r =>
    obtain ⟨hl, hr⟩ := filled_binary.mp hc
    obtain rfl := Option.some.inj h
    unfold hostEquality
    split_ifs <;> simp [hl, hr]
  next l r =>
    obtain ⟨hl, hr⟩ := filled_binary.mp hc
    obtain rfl := Option.some.inj h
    unfold hostInequality
    split_ifs <;> simp [hl, hr]
  next op l r _ _ =>
    obtain ⟨hl, hr⟩ := filled_binary.mp hc
    split at h
    next =>
      obtain rfl := Option.some.inj h
      unfold hostOrdering guardedBy
      split_ifs <;> simp [hl, hr]
    next => cases h
  next => cases h

/-- Null adjustment adds null tests and connectives, but no list of values. -/
theorem Filled.adjustUnder (h : e.Filled) (negated : Bool) : (e.adjustUnder negated).Filled := by
  fun_induction Expr.adjustUnder negated e with
  | case2 negated l r _ ihl ihr | case3 negated l r _ ihl ihr =>
    obtain ⟨hl, hr⟩ := filled_binary.mp h
    exact filled_binary.mpr ⟨ihl hl, ihr hr⟩
  | case4 negated e _ ih => exact ih h
  | case5 negated l r _ => exact filled_of_hostComparison (c := binary .eq l r) rfl h
  | case6 negated l r _ => exact filled_of_hostComparison (c := binary .ne l r) rfl h
  | case7 negated op l r _ _ heq hne hordering =>
    rw [Bool.and_eq_true] at hordering
    exact filled_of_hostComparison (hostComparison_of_isOrdering hordering.2) h
  | case1 | case8 | case9 => exact h

/-- Adjusting leaves a filled expression filled in both modes. -/
theorem Filled.adjust (h : e.Filled) (mode : NullMode) : (e.adjust mode).Filled := by
  cases mode with
  | native => exact h
  | host => exact h.adjustUnder false

end Filled

end Expr

/-- Fusing leaves conjuncts out and changes none. -/
theorem filled_fuse {inner outer : Expr} (hinner : inner.Filled) (houter : outer.Filled) :
    (fuse inner outer).Filled := by
  rcases fuse_cases inner outer with hfuse | ⟨-, hfuse⟩ | ⟨c, cs, hadded, hfuse⟩
  · rw [hfuse]
    exact Expr.filled_binary.mpr ⟨hinner, houter⟩
  · rw [hfuse]
    exact hinner
  · have hparts : ∀ d ∈ c :: cs, d.Filled := by
      intro d hd
      rw [← hadded] at hd
      exact houter.of_mem_chain (List.mem_of_mem_filter hd)
    obtain ⟨hc, hcs⟩ := List.forall_mem_cons.mp hparts
    rw [hfuse]
    exact Expr.filled_binary.mpr ⟨hinner, hc.foldl hcs⟩

/-! ## Columns and keys -/

/-- A caller sees some of the columns, and no membership test in them has an empty list. -/
structure ColumnsFilled (columns : List OutputColumn) : Prop where
  visible : visibleNames columns ≠ []
  filled : ∀ c ∈ columns, c.expr.Filled

/-- There are keys, and no membership test in them has an empty list. -/
structure KeysFilled (keys : List SortKey) : Prop where
  some : keys ≠ []
  filled : ∀ key ∈ keys, key.expr.Filled

section Lists

variable {columns inner : List OutputColumn} {keys : List SortKey} {f : String → Expr}

/-- A column without a definition stands for itself, so every name has a filled definition. -/
theorem filled_definition (h : ∀ c ∈ columns, c.expr.Filled) (name : String) :
    (OutputColumn.definition columns name).Filled := by
  unfold OutputColumn.definition
  split
  next c hc => exact h c (List.mem_of_find?_eq_some hc)
  next => exact Expr.filled_column name

/-- Substituting hides no column and empties none. -/
theorem ColumnsFilled.substitute (h : ColumnsFilled columns) (hf : ∀ name, (f name).Filled) :
    ColumnsFilled (columns.map (·.substitute f)) := by
  refine ⟨?_, fun c hc => ?_⟩
  · rw [visibleNames_eq_of_headers (headers_map_substitute f columns)]
    exact h.visible
  · obtain ⟨old, hold, rfl⟩ := List.mem_map.mp hc
    exact (h.filled old hold).substitute hf

theorem KeysFilled.substitute (h : KeysFilled keys) (hf : ∀ name, (f name).Filled) :
    KeysFilled (keys.map (·.substitute f)) := by
  refine ⟨?_, fun key hkey => ?_⟩
  · exact mt List.map_eq_nil_iff.mp h.some
  · obtain ⟨old, hold, rfl⟩ := List.mem_map.mp hkey
    exact (h.filled old hold).substitute hf

/-- Carried keys become columns, and the columns added for them are the keys. -/
theorem filled_carryKeys (hcolumns : ∀ c ∈ columns, c.expr.Filled)
    (hkeys : ∀ key ∈ keys, key.expr.Filled) :
    (∀ c ∈ (carryKeys columns keys).1, c.expr.Filled) ∧
      ∀ key ∈ (carryKeys columns keys).2, key.expr.Filled := by
  constructor
  · obtain ⟨added, happend, hadded⟩ := exists_added columns keys
    intro c hc
    rw [happend] at hc
    rcases List.mem_append.mp hc with hc | hc
    · exact hcolumns c hc
    · obtain ⟨-, key, hkey, hexpr, -⟩ := hadded c hc
      rw [hexpr]
      exact hkeys key hkey
  · intro new hnew
    obtain ⟨key, -, c, -, rfl⟩ := exists_left_of_forall₂ (lifted_firstComputing columns keys) hnew
    exact Expr.filled_column c.name

/-- Carrying keys adds columns and loses no key. -/
theorem ColumnsFilled.carryKeys (h : ColumnsFilled columns) (hkeys : KeysFilled keys) :
    ColumnsFilled (carryKeys columns keys).1 ∧ KeysFilled (carryKeys columns keys).2 := by
  obtain ⟨hcarried, hlifted⟩ := filled_carryKeys h.filled hkeys.filled
  refine ⟨⟨?_, hcarried⟩, ⟨fun hnil => ?_, hlifted⟩⟩
  · rw [visibleNames_carryKeys]
    exact h.visible
  · have hdirections := directions_carryKeys columns keys
    rw [hnil] at hdirections
    exact hkeys.some (List.map_eq_nil_iff.mp hdirections.symm)

end Lists

/-! ## Type filters -/

/-- The first element is never a repetition. -/
theorem eraseDups_ne_nil {α : Type} [BEq α] [LawfulBEq α] {xs : List α} (h : xs ≠ []) :
    xs.eraseDups ≠ [] := by
  obtain ⟨x, xs, rfl⟩ := List.exists_cons_of_ne_nil h
  exact List.ne_nil_of_mem (List.mem_eraseDups.mpr List.mem_cons_self)

/-- A condition compares one column or tests it for null. -/
theorem Condition.filled_predicate (condition : Condition) : condition.predicate.Filled := by
  unfold Condition.predicate
  cases condition.test <;> simp

/-- The conditions of a type are joined by `and`. -/
theorem EntityType.filled_predicate {t : EntityType Condition} {e : Expr}
    (h : t.predicate? = some e) : e.Filled := by
  refine Expr.filled_joinedBy h fun d hd => ?_
  obtain ⟨condition, -, rfl⟩ := List.mem_map.mp hd
  exact condition.filled_predicate

namespace Model

variable {model : Model} {set : EntitySet} {name : String} {e : Expr}

/-- Each entity set has a root type with a property of its own. -/
def RootsDeclared (model : Model) : Prop :=
  ∀ set ∈ model.sets, ∃ t, model.entityType set.root = some t ∧ t.properties ≠ []

/-- **The list of a type has a value for each of the types that have conditions**, and there is
one. -/
theorem filled_subtreePredicate (h : model.subtreePredicate? name = some e) : e.Filled := by
  unfold subtreePredicate? at h
  simp only at h
  split at h
  next first hfirst =>
    obtain ⟨t, ht, -⟩ := Option.bind_eq_some_iff.mp hfirst
    unfold unionPredicate? at h
    split at h
    next values hvalues =>
      obtain rfl := Option.some.inj h
      have hsome : values ≠ [] := by
        rintro rfl
        rw [List.forall₂_nil_right_iff.mp (forall₂_of_mapM_eq_some hvalues)] at ht
        cases ht
      exact Expr.filled_inList.mpr ⟨eraseDups_ne_nil hsome, Expr.filled_column _⟩
    next =>
      refine Expr.filled_joinedBy h fun d hd => ?_
      obtain ⟨u, -, hpredicate⟩ := List.mem_filterMap.mp hd
      exact EntityType.filled_predicate hpredicate
  next => cases h

/-- A relation of a model is one of its sets. -/
theorem mem_sets_of_relation (h : model.relation name = .ok set) : set ∈ model.sets := by
  unfold relation at h
  split at h
  next found hfound =>
    obtain rfl := Except.ok.inj h
    exact List.mem_of_find?_eq_some hfound
  next => cases h

/-- A type with a property has a column. -/
theorem columnsOf_ne_nil {types : List (EntityType Condition)} {t : EntityType Condition}
    (ht : t ∈ types) (hproperties : t.properties ≠ []) : columnsOf types ≠ [] := by
  obtain ⟨property, properties, heq⟩ := List.exists_cons_of_ne_nil hproperties
  have hcolumn : property.column ∈ t.properties.map (·.column) := by
    rw [heq]
    exact List.mem_cons_self
  exact eraseDups_ne_nil (List.ne_nil_of_mem (List.mem_flatMap.mpr ⟨t, ht, hcolumn⟩))

/-- A table has the columns of its root type. -/
theorem relationColumns_ne_nil (hroots : model.RootsDeclared)
    (h : model.relation name = .ok set) : model.relationColumns set ≠ [] := by
  obtain ⟨t, ht, hproperties⟩ := hroots set (mem_sets_of_relation h)
  have hcolumns := columnsOf_ne_nil (mem_subtree_self ht) hproperties
  exact eraseDups_ne_nil (List.append_ne_nil_of_left_ne_nil hcolumns _)

/-- A type inherits the columns of the root type that it derives from. -/
theorem typeColumns_ne_nil (hroots : model.RootsDeclared) (hset : set ∈ model.sets)
    (h : model.isSubtypeOf name set.root = true) : model.typeColumns name ≠ [] := by
  obtain ⟨t, ht, hproperties⟩ := hroots set hset
  obtain ⟨k, s, hs, hname⟩ := isSubtypeOf_iff.mp h
  have hroot : model.entityType set.root = some s := by
    rw [← hname]
    exact findType_of_ancestorAt hs
  obtain rfl : t = s := Option.some.inj (ht.symm.trans hroot)
  have hmem : t ∈ (ancestry model.types name).reverse :=
    List.mem_reverse.mpr (mem_ancestry_iff.mpr ⟨k, hs⟩)
  exact columnsOf_ne_nil hmem hproperties

theorem visibleNames_passThrough (names : List String) :
    visibleNames (names.map OutputColumn.passThrough) = names := by
  induction names with
  | nil => rfl
  | cons name names ih => exact congrArg (name :: ·) ih

/-- **What a type filter shows is not empty.** -/
theorem columnsFilled_shape {shaping : Shaping} (hcolumns : model.typeColumns name ≠ [])
    (he : e.Filled) : ColumnsFilled (model.shape shaping set name e) := by
  refine ⟨?_, fun c hc => ?_⟩
  · rw [visibleNames_eq_of_headers headers_shape, visibleNames_passThrough]
    exact hcolumns
  · obtain ⟨-, hexpr | hexpr⟩ := expr_of_mem_shape hc
    · rw [hexpr]
      exact Expr.filled_column _
    · rw [hexpr]
      exact Expr.filled_caseWhen.mpr ⟨he, Expr.filled_column _⟩

end Model

/-! ## Plans -/

namespace Plan

/-- No list of the plan is empty. -/
def Filled : Plan → Prop
  | source _ => True
  | filter predicate p => predicate.Filled ∧ p.Filled
  | project columns p => ColumnsFilled columns ∧ p.Filled
  | sort keys p => KeysFilled keys ∧ p.Filled
  | skip _ p | take _ p | ofType _ p => p.Filled

section Filled

variable {plan p q : Plan} {model : Model}

/-- Adjusting changes predicates, columns and keys only. -/
theorem Filled.adjust (h : plan.Filled) (mode : NullMode) : (plan.adjust mode).Filled := by
  induction plan with
  | source relation => trivial
  | filter predicate p ih => exact ⟨h.1.adjust mode, ih h.2⟩
  | project columns p ih => exact ⟨h.1, ih h.2⟩
  | sort keys p ih => exact ⟨h.1, ih h.2⟩
  | skip _ p ih | take _ p ih | ofType _ p ih => exact ih h

/-- The order that a plan has comes from one of its sorts. -/
theorem Filled.orderSource (h : plan.Filled) {keys : List SortKey}
    (hkeys : plan.orderSource = some keys) : KeysFilled keys := by
  induction plan with
  | source relation => cases hkeys
  | sort inner p ih =>
    obtain rfl := Option.some.inj hkeys
    exact h.1
  | filter _ p ih | project _ p ih => exact ih h.2 hkeys
  | skip _ p ih | take _ p ih | ofType _ p ih => exact ih h hkeys

/-- **Every rewriting rule leaves a filled plan filled.** -/
theorem filled_of_rule (hrule : Rule p q) (h : p.Filled) : q.Filled := by
  cases hrule with
  | fuseFilters outer inner p => exact ⟨filled_fuse h.2.1 h.1, h.2.2⟩
  | sortOverFilter predicate keys p => exact ⟨h.2.1, h.1, h.2.2⟩
  | mergeProjections outer inner p =>
    exact ⟨h.1.substitute (filled_definition h.2.1.filled), h.2.2⟩
  | sortOverProjection columns keys p =>
    obtain ⟨hcarried, hlifted⟩ := h.1.carryKeys h.2.1
    exact ⟨hlifted, hcarried, h.2.2⟩
  | dropShadowedSort outer inner p => exact ⟨h.1, h.2.2⟩
  | sortOverType | projectionBelowSkip | projectionBelowTake | mergeSkips | skipBelowTake
  | mergeTakes => exact h

/-- **Lifting empties no list.** -/
theorem filled_of_step {consumer : Consumer} (hstep : Step consumer p q) (h : p.Filled) :
    q.Filled := by
  induction hstep with
  | rule hrule => exact filled_of_rule hrule h
  | restate hkeys => exact ⟨h.orderSource (orderSource_of_truncationKeys hkeys), h⟩
  | filter _ _ ih | project _ _ ih | sort _ _ ih => exact ⟨h.1, ih h.2⟩
  | ofType _ _ ih | skip _ _ ih | take _ _ ih => exact ih h

/-- A sweep is a number of rules in a row. -/
theorem Filled.sweepUpTo (h : plan.Filled) (limit : ℕ) : (plan.sweepUpTo limit).Filled := by
  have hsteps := sweepUpTo_steps limit plan
  generalize Plan.sweepUpTo limit plan = swept at hsteps
  induction hsteps with
  | refl => exact h
  | tail _ hlast ih => exact filled_of_step hlast ih

/-- **Resolving empties no list**, if every root type has a property. -/
theorem filled_of_resolveUnder {shaping : Shaping} {outer : Option String}
    (hroots : model.RootsDeclared) (hresolve : plan.resolveUnder model shaping outer = .ok q)
    (h : plan.Filled) : q.Filled := by
  induction plan generalizing outer q with
  | source relation =>
    obtain ⟨set, -, hresolve⟩ := exists_ok_of_bind_eq_ok hresolve
    split at hresolve
    next predicate hpredicate =>
      obtain rfl := Except.ok.inj hresolve
      have hsubtree := Model.subtreePredicate_of_extentPredicate hpredicate
      exact ⟨Model.filled_subtreePredicate hsubtree, trivial⟩
    next =>
      obtain rfl := Except.ok.inj hresolve
      trivial
  | filter _ p ih | project _ p ih | sort _ p ih =>
    obtain ⟨input, hinput, rfl⟩ := exists_ok_of_bind_pure_eq_ok hresolve
    exact ⟨h.1, ih hinput h.2⟩
  | skip _ p ih | take _ p ih =>
    obtain ⟨input, hinput, rfl⟩ := exists_ok_of_bind_pure_eq_ok hresolve
    have hfilled := ih hinput h
    exact hfilled
  | ofType subtype p ih =>
    obtain ⟨set, e, input, hset, he, hinput, rfl⟩ := resolveUnder_ofType_eq_ok hresolve
    have hpredicate := Model.filled_subtreePredicate (Model.subtreePredicate_of_typePredicate he)
    have hrestricted : (restrictedBy model set e input).Filled := by
      unfold restrictedBy
      split
      · exact ih hinput h
      · exact ⟨hpredicate, ih hinput h⟩
    cases outer with
    | some above => exact hrestricted
    | none =>
      have hmem := Model.mem_sets_of_relation (filteredSet_eq_ok hset).2
      have hsubtype : model.isSubtypeOf subtype set.root = true :=
        (Model.typePredicate_ok_iff.mp ⟨e, he⟩).2.1
      have hcolumns := Model.typeColumns_ne_nil hroots hmem hsubtype
      exact ⟨Model.columnsFilled_shape hcolumns hpredicate, hrestricted⟩

/-- **Preparing empties no list.** -/
theorem filled_of_prepare {options : Options} {prepared : Plan} (hroots : model.RootsDeclared)
    (hprepare : plan.prepare model options = .ok prepared) (h : plan.Filled) : prepared.Filled := by
  obtain ⟨resolved, hresolve, hlift⟩ := prepare_eq_ok hprepare
  obtain ⟨-, rfl, -⟩ := lift_eq_ok_iff.mp hlift
  have hresolved := filled_of_resolveUnder hroots hresolve (h.adjust options.nulls)
  exact hresolved.sweepUpTo options.sweeps

end Filled

end Plan

end EntityQuery
