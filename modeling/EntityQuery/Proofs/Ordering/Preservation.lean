/-
# Lifting keeps the meaning

A lifted plan may carry hidden columns that the plan did not have, so its rows are not the rows of
the plan.  `Plan.Widened` is the relation that survives: the second plan has at least the columns of
the first, the same visible ones, and on the columns of the first plan the same results.  Every rule
widens (`Plan.widened_of_rule`), every operator keeps two plans in that relation as long as it reads
columns of the first one, and so every step does (`Plan.widened_of_step`).

* `Plan.lift_preserves_answers`: a lifted plan has exactly the answers of the plan.
-/
import EntityQuery.Proofs.Ordering.Carry
import EntityQuery.Proofs.Ordering.Step
import Mathlib.Algebra.Group.Nat.Defs

namespace EntityQuery

/-! ## Merged filters, projections and counts -/

/-- The outer conjuncts that merging adds to the inner filter. -/
def addedConjuncts (inner outer : Expr) : List Expr :=
  outer.conjuncts.filter (!inner.conjuncts.contains ·)

/-- Merged filters are the inner filter with the whole outer one, or with what it adds, if
anything. -/
theorem fuse_cases (inner outer : Expr) :
    fuse inner outer = .and inner outer ∨
      (addedConjuncts inner outer = [] ∧ fuse inner outer = inner) ∨
      ∃ c cs, addedConjuncts inner outer = c :: cs ∧
        fuse inner outer = .and inner (cs.foldl .and c) := by
  simp only [fuse]
  split
  next =>
    rw [show outer.conjuncts.filter (!inner.conjuncts.contains ·) = addedConjuncts inner outer
      from rfl]
    cases addedConjuncts inner outer with
    | nil => exact Or.inr (Or.inl ⟨rfl, rfl⟩)
    | cons c cs => exact Or.inr (Or.inr ⟨c, cs, rfl, rfl⟩)
  next => exact Or.inl rfl

section Fuse

variable {engine : Engine} {mode : NullMode} {row : Row} {inner : Expr}

/-- What merging leaves out of the outer filter is implied by the inner one. -/
theorem holds_iff_addedConjuncts (outer : Expr) (hinner : inner.holds engine mode row) :
    outer.holds engine mode row ↔
      ∀ c ∈ addedConjuncts inner outer, c.holds engine mode row := by
  rw [Expr.holds_iff_conjuncts] at hinner ⊢
  constructor
  · intro h c hc
    exact h c (List.mem_of_mem_filter hc)
  · intro h c hc
    by_cases hknown : c ∈ inner.conjuncts
    · exact hinner c hknown
    · exact h c (List.mem_filter.mpr ⟨hc, by simpa using hknown⟩)

/-- Merged filters keep the rows that both keep. -/
theorem holds_fuse (inner outer : Expr) :
    (fuse inner outer).holds engine mode row =
      (outer.holds engine mode row && inner.holds engine mode row) := by
  rw [Bool.eq_iff_iff, Bool.and_eq_true, and_comm]
  rcases fuse_cases inner outer with hfuse | ⟨hadded, hfuse⟩ | ⟨c, cs, hadded, hfuse⟩
  · rw [hfuse, Expr.holds_and, Bool.and_eq_true]
  · rw [hfuse]
    refine ⟨fun h => ⟨h, (holds_iff_addedConjuncts outer h).mpr ?_⟩, fun h => h.1⟩
    rw [hadded]
    simp
  · rw [hfuse, Expr.holds_and, Bool.and_eq_true]
    refine and_congr_right fun h => ?_
    rw [holds_iff_addedConjuncts outer h, hadded, List.forall_mem_cons,
      Expr.holds_foldl_and]

end Fuse

/-- The operands of a chain read columns of the whole. -/
theorem Expr.references_subset_of_mem_chain {op : Op} {e c : Expr} (h : c ∈ e.chain op) :
    c.references ⊆ e.references := by
  fun_induction chain op e with
  | case1 l r ihl ihr =>
    simp only [references]
    rcases List.mem_append.mp h with h | h
    · exact List.Subset.trans (ihl h) (List.subset_append_left _ _)
    · exact List.Subset.trans (ihr h) (List.subset_append_right _ _)
  | case2 | case3 =>
    rw [List.mem_singleton.mp h]
    exact List.Subset.refl _

/-- A fused filter reads no further columns. -/
theorem references_fuse_subset {names : List String} {inner outer : Expr}
    (hinner : inner.references ⊆ names) (houter : outer.references ⊆ names) :
    (fuse inner outer).references ⊆ names := by
  rcases fuse_cases inner outer with hfuse | ⟨-, hfuse⟩ | ⟨c, cs, hadded, hfuse⟩
  · rw [hfuse]
    exact List.append_subset.mpr ⟨hinner, houter⟩
  · rw [hfuse]
    exact hinner
  · have hparts : ∀ d ∈ c :: cs, d.references ⊆ names := by
      intro d hd
      rw [← hadded] at hd
      exact List.Subset.trans
        (Expr.references_subset_of_mem_chain (List.mem_of_mem_filter hd)) houter
    rw [hfuse]
    exact List.append_subset.mpr ⟨hinner, Expr.references_foldl_subset
      (hparts c List.mem_cons_self) (fun d hd => hparts d (List.mem_cons_of_mem c hd))⟩

/-- Counts add up to the greatest count at most. -/
theorem toNat_saturatingAdd (m n : UInt64) :
    (saturatingAdd m n).toNat = min (m.toNat + n.toNat) (UInt64.size - 1) := by
  unfold saturatingAdd
  split
  next h =>
    rw [UInt64.toNat_add, Nat.mod_eq_of_lt h]
    omega
  next h =>
    rw [show (UInt64.ofNat (UInt64.size - 1)).toNat = UInt64.size - 1 from rfl]
    omega

/-- Counts are taken off down to zero, as natural numbers are. -/
theorem toNat_saturatingSub (m n : UInt64) : (saturatingSub m n).toNat = m.toNat - n.toNat := by
  unfold saturatingSub
  split
  next h => exact UInt64.toNat_sub_of_le m n h
  next h =>
    have hlt : m.toNat < n.toNat := UInt64.lt_iff_toNat_lt.mp (UInt64.not_le.mp h)
    rw [Nat.sub_eq_zero_of_le (by omega)]
    rfl

theorem toNat_min (m n : UInt64) : (min m n).toNat = min m.toNat n.toNat := by
  show (if m ≤ n then m else n).toNat = _
  split
  next h => rw [Nat.min_eq_left (UInt64.le_iff_toNat_le.mp h)]
  next h =>
    have hlt : n.toNat < m.toNat := UInt64.lt_iff_toNat_lt.mp (UInt64.not_le.mp h)
    rw [Nat.min_eq_right (Nat.le_of_lt hlt)]

namespace Plan

/-! ## Widened plans -/

/-- The second plan gives what the first one gives, and may carry further hidden columns. -/
structure Widened (store : Store) (p q : Plan) : Prop where
  names_subset : p.names store ⊆ q.names store
  visibleNames_eq : visibleNames (q.outputs store) = visibleNames (p.outputs store)
  results_eq : (q.results store).map (Row.cut (p.names store)) = p.results store

namespace Widened

variable {store : Store} {p q r : Plan}

/-- Two plans with the same columns and results. -/
theorem of_eq (houtputs : q.outputs store = p.outputs store)
    (hresults : q.results store = p.results store) : Widened store p q where
  names_subset := by
    rw [names, names, houtputs]
    exact List.Subset.refl _
  visibleNames_eq := by rw [houtputs]
  results_eq := by
    rw [hresults]
    exact Outcomes.map_eq_self fun _ h => cut_of_mem_results h

theorem refl (store : Store) (p : Plan) : Widened store p p := of_eq rfl rfl

/-- Plans can be widened step by step. -/
theorem trans (hpq : Widened store p q) (hqr : Widened store q r) : Widened store p r where
  names_subset := List.Subset.trans hpq.names_subset hqr.names_subset
  visibleNames_eq := hqr.visibleNames_eq.trans hpq.visibleNames_eq
  results_eq := by
    rw [← hpq.results_eq, ← hqr.results_eq, Outcomes.map_map]
    exact congrArg (r.results store).map
      (funext fun row => (Row.cut_cut hpq.names_subset row).symm)

/-- A widened plan shows a caller the same. -/
theorem answers_eq (h : Widened store p q) : q.answers store = p.answers store := by
  rw [answers, answers, ← h.results_eq, h.visibleNames_eq, Outcomes.map_map]
  exact congrArg (q.results store).map
    (funext fun row => (Row.shown_cut (visibleNames_subset _) row).symm)

/-! Every operator keeps plans widened as long as it reads columns of the first plan. -/

/-- A filter that reads columns of the narrower plan keeps the same rows. -/
protected theorem filter (h : Widened store p q) {predicate : Expr}
    (hreads : predicate.references ⊆ p.names store) :
    Widened store (filter predicate p) (filter predicate q) where
  names_subset := h.names_subset
  visibleNames_eq := h.visibleNames_eq
  results_eq := by
    show ((q.results store).filter _).map (Row.cut (p.names store)) = (p.results store).filter _
    rw [Outcomes.filter_map_cut (Expr.holds_cut hreads), h.results_eq]

protected theorem ofType (h : Widened store p q) {subtype : String}
    (hreads : store.typeReads subtype ⊆ p.names store) :
    Widened store (ofType subtype p) (ofType subtype q) where
  names_subset := h.names_subset
  visibleNames_eq := h.visibleNames_eq
  results_eq := by
    show ((q.results store).filter _).map (Row.cut (p.names store)) = (p.results store).filter _
    rw [Outcomes.filter_map_cut (store.isOfType_cut hreads), h.results_eq]

/-- A projection cuts off what was added. -/
protected theorem project (h : Widened store p q) {columns : List OutputColumn}
    (hreads : ∀ c ∈ columns, c.expr.references ⊆ p.names store) :
    Widened store (project columns p) (project columns q) := by
  refine of_eq rfl ?_
  show (q.results store).map _ = (p.results store).map _
  rw [← h.results_eq, Outcomes.project_map_cut hreads]

/-- A sort by columns of the narrower plan leaves the same orders. -/
protected theorem sort (h : Widened store p q) {keys : List SortKey}
    (hreads : ∀ key ∈ keys, key.expr.references ⊆ p.names store) :
    Widened store (sort keys p) (sort keys q) where
  names_subset := h.names_subset
  visibleNames_eq := h.visibleNames_eq
  results_eq := by
    show ((q.results store).sort _).map (Row.cut (p.names store)) = (p.results store).sort _
    rw [Outcomes.sort_map_cut hreads, h.results_eq]

/-- The same rows are skipped, whatever is added to them. -/
protected theorem skip (h : Widened store p q) (count : UInt64) :
    Widened store (skip count p) (skip count q) where
  names_subset := h.names_subset
  visibleNames_eq := h.visibleNames_eq
  results_eq := by
    show ((q.results store).drop _).map (Row.cut (p.names store)) = (p.results store).drop _
    rw [Outcomes.map_drop, h.results_eq]

protected theorem take (h : Widened store p q) (count : UInt64) :
    Widened store (take count p) (take count q) where
  names_subset := h.names_subset
  visibleNames_eq := h.visibleNames_eq
  results_eq := by
    show ((q.results store).take _).map (Row.cut (p.names store)) = (p.results store).take _
    rw [Outcomes.map_take, h.results_eq]

end Widened

/-! ## Steps -/

section Steps

variable {store : Store} {p q : Plan}

/-- The greatest count is as good as any greater one: no plan has that many rows. -/
theorem drop_saturatingAdd (hrows : (store.rows p.relation).length < UInt64.size) (m n : UInt64) :
    (p.results store).drop (saturatingAdd m n).toNat =
      (p.results store).drop (m.toNat + n.toNat) := by
  refine Outcomes.drop_congr fun rows h => ?_
  have hlength := length_le_of_mem_results h
  rw [toNat_saturatingAdd]
  omega

/-- **Every rule widens.** -/
theorem widened_of_rule (h : Rule p q) (hscoped : p.Scoped store)
    (hrows : (store.rows p.relation).length < UInt64.size) : Widened store p q := by
  cases h with
  | fuseFilters outer inner p =>
    refine Widened.of_eq rfl ?_
    simp only [results, Outcomes.filter_filter, holds_fuse]
  | sortOverFilter predicate keys p => exact Widened.of_eq rfl (Outcomes.filter_sort _ _).symm
  | sortOverType subtype keys p => exact Widened.of_eq rfl (Outcomes.filter_sort _ _).symm
  | mergeProjections outer inner p =>
    have hheaders : headers (compose outer inner) = headers outer := headers_map_substitute _ outer
    refine ⟨?_, visibleNames_eq_of_headers hheaders, ?_⟩
    · rw [names, names, outputs, outputs, columnNames_eq_of_headers hheaders]
      exact List.Subset.refl _
    · simp only [results, Outcomes.map_map]
      refine congrArg (p.results store).map (funext fun row => ?_)
      have hreads : ∀ c ∈ outer, c.expr.references ⊆ columnNames inner := hscoped.1
      rw [Function.comp_apply, Function.comp_apply, compose, Row.project_inline hreads]
      exact Row.cut_project store.engine outer _
  | sortOverProjection columns keys p =>
    obtain ⟨-, hnodup, -⟩ := hscoped
    have hcarried := carryKeys_spec keys hnodup
    refine ⟨hcarried.names_subset, visibleNames_carryKeys columns keys, ?_⟩
    -- the lifted keys sort the projected rows as the keys sorted the rows
    simp only [results]
    rw [← Outcomes.map_sort (hcarried.precedes_project store.engine), Outcomes.map_map]
    exact congrArg ((p.results store).sort (Precedes store.engine keys)).map
      (funext fun row => hcarried.cut_project store.engine row)
  | projectionBelowSkip columns count p => exact Widened.of_eq rfl (Outcomes.map_drop _ _ _).symm
  | projectionBelowTake columns count p => exact Widened.of_eq rfl (Outcomes.map_take _ _ _).symm
  | dropShadowedSort outer inner p => exact Widened.of_eq rfl (Outcomes.sort_sort _).symm
  | mergeSkips outer inner p =>
    have hbound : (store.rows p.relation).length < UInt64.size := hrows
    refine Widened.of_eq rfl ?_
    rw [results, drop_saturatingAdd hbound, results, results, Outcomes.drop_drop]
  | skipBelowTake count limit p =>
    refine Widened.of_eq rfl ?_
    simp only [results, toNat_saturatingSub, Outcomes.drop_take]
  | mergeTakes outer inner p =>
    refine Widened.of_eq rfl ?_
    simp only [results, toNat_min, Outcomes.take_take, Nat.min_comm]

/-- Restating the keys of a windowed stage adds no order to the one it has. -/
theorem results_restate {keys : List SortKey} (h : p.truncationKeys = some keys) :
    (sort keys p).results store = p.results store := by
  unfold truncationKeys at h
  split at h
  · obtain rfl := Option.some.inj h
    exact Outcomes.sort_drop_sort _ _
  · obtain rfl := Option.some.inj h
    exact Outcomes.sort_take_sort _ _
  · obtain rfl := Option.some.inj h
    exact Outcomes.sort_take_drop_sort _ _ _
  · cases h

/-- The keys of a windowed stage read what it produces. -/
theorem references_subset_of_truncationKeys {keys : List SortKey}
    (h : p.truncationKeys = some keys) (hscoped : p.Scoped store) :
    ∀ key ∈ keys, key.expr.references ⊆ p.names store := by
  unfold truncationKeys at h
  split at h
  · obtain rfl := Option.some.inj h
    exact hscoped.1
  · obtain rfl := Option.some.inj h
    exact hscoped.1
  · obtain rfl := Option.some.inj h
    exact hscoped.1
  · cases h

/-- No rule changes the relation that is read. -/
theorem relation_of_rule (h : Rule p q) : q.relation = p.relation := by
  cases h <;> rfl

/-- Every rule keeps reading only what the input produces. -/
theorem scoped_of_rule (h : Rule p q) (hscoped : p.Scoped store) : q.Scoped store := by
  cases h with
  | fuseFilters outer inner p => exact ⟨references_fuse_subset hscoped.2.1 hscoped.1, hscoped.2.2⟩
  | sortOverFilter predicate keys p => exact ⟨hscoped.2.1, hscoped.1, hscoped.2.2⟩
  | sortOverType subtype keys p => exact ⟨hscoped.2.1, hscoped.1, hscoped.2.2⟩
  | mergeProjections outer inner p =>
    obtain ⟨houter, hnodup, hinner, -, hp⟩ := hscoped
    refine ⟨fun c hc => ?_, ?_, hp⟩
    · obtain ⟨d, hd, rfl⟩ := List.mem_map.mp hc
      exact references_inline_subset hinner (houter d hd)
    · rw [compose, columnNames_eq_of_headers (headers_map_substitute _ outer)]
      exact hnodup
  | sortOverProjection columns keys p =>
    obtain ⟨hcolumns, hnodup, hkeys, hp⟩ := hscoped
    have hcarried := carryKeys_spec keys hnodup
    exact ⟨hcarried.lifted_references, hcarried.references_subset hcolumns hkeys,
      hcarried.nodup, hp⟩
  | projectionBelowSkip columns count p => exact hscoped
  | projectionBelowTake columns count p => exact hscoped
  | dropShadowedSort outer inner p => exact ⟨hscoped.1, hscoped.2.2⟩
  | mergeSkips outer inner p => exact hscoped
  | skipBelowTake count limit p => exact hscoped
  | mergeTakes outer inner p => exact hscoped

theorem relation_of_step {consumer : Consumer} (h : Step consumer p q) :
    q.relation = p.relation := by
  induction h with
  | rule h => exact relation_of_rule h
  | restate => rfl
  | filter _ _ ih | ofType _ _ ih | project _ _ ih | sort _ _ ih | skip _ _ ih | take _ _ ih =>
    exact ih

/-- **Every step widens**, and keeps reading only what the input produces. -/
theorem widened_of_step {consumer : Consumer} (h : Step consumer p q) (hscoped : p.Scoped store)
    (hrows : (store.rows p.relation).length < UInt64.size) :
    Widened store p q ∧ q.Scoped store := by
  induction h with
  | rule h => exact ⟨widened_of_rule h hscoped hrows, scoped_of_rule h hscoped⟩
  | restate h =>
    exact ⟨Widened.of_eq rfl (results_restate h),
      references_subset_of_truncationKeys h hscoped, hscoped⟩
  | filter predicate _ ih =>
    obtain ⟨hreads, hp⟩ := hscoped
    obtain ⟨hwide, hq⟩ := ih hp hrows
    exact ⟨hwide.filter hreads, List.Subset.trans hreads hwide.names_subset, hq⟩
  | ofType subtype _ ih =>
    obtain ⟨hreads, hp⟩ := hscoped
    obtain ⟨hwide, hq⟩ := ih hp hrows
    exact ⟨hwide.ofType hreads, List.Subset.trans hreads hwide.names_subset, hq⟩
  | project columns _ ih =>
    obtain ⟨hreads, hnodup, hp⟩ := hscoped
    obtain ⟨hwide, hq⟩ := ih hp hrows
    exact ⟨hwide.project hreads,
      fun c hc => List.Subset.trans (hreads c hc) hwide.names_subset, hnodup, hq⟩
  | sort keys _ ih =>
    obtain ⟨hreads, hp⟩ := hscoped
    obtain ⟨hwide, hq⟩ := ih hp hrows
    exact ⟨hwide.sort hreads,
      fun key hkey => List.Subset.trans (hreads key hkey) hwide.names_subset, hq⟩
  | skip count _ ih =>
    obtain ⟨hwide, hq⟩ := ih hscoped hrows
    exact ⟨hwide.skip count, hq⟩
  | take count _ ih =>
    obtain ⟨hwide, hq⟩ := ih hscoped hrows
    exact ⟨hwide.take count, hq⟩

/-- A chain of steps widens as a single one does. -/
theorem widened_of_steps {consumer : Consumer} (h : Relation.ReflTransGen (Step consumer) p q)
    (hscoped : p.Scoped store) (hrows : (store.rows p.relation).length < UInt64.size) :
    Widened store p q ∧ q.Scoped store ∧ q.relation = p.relation := by
  induction h with
  | refl => exact ⟨Widened.refl store p, hscoped, rfl⟩
  | tail _ hstep ih =>
    obtain ⟨hwide, hmid, hrelation⟩ := ih
    obtain ⟨hwide', hq⟩ := widened_of_step hstep hmid (hrelation ▸ hrows)
    exact ⟨hwide.trans hwide', hq, (relation_of_step hstep).trans hrelation⟩

/-! ## Names -/

/-- No rule gives a column a name that is never fresh. -/
theorem avoids_of_rule {name : String} (hname : neverFresh name = true) (h : Rule p q)
    (hscoped : p.Scoped store) (havoids : p.Avoids store name) : q.Avoids store name := by
  cases h with
  | mergeProjections outer inner p =>
    refine ⟨?_, havoids.2.2⟩
    rw [compose, columnNames_eq_of_headers (headers_map_substitute _ outer)]
    exact havoids.1
  | sortOverProjection columns keys p =>
    obtain ⟨-, hnodup, hkeys, -⟩ := hscoped
    have hp : p.Avoids store name := havoids.2
    have hne : ∀ key ∈ keys, key.expr ≠ .column name := by
      intro key hkey hcolumn
      have hread : name ∈ key.expr.references := by
        rw [hcolumn]
        exact List.mem_cons_self
      exact hp.notMem_names (hkeys key hkey hread)
    exact ⟨(carryKeys_spec keys hnodup).notMem_names hname havoids.1 hne, hp⟩
  | fuseFilters | sortOverFilter | sortOverType | projectionBelowSkip | projectionBelowTake
  | dropShadowedSort | mergeSkips | skipBelowTake | mergeTakes => exact havoids

/-- A step adds no column of a name that is never fresh. -/
theorem avoids_of_step {consumer : Consumer} {name : String} (hname : neverFresh name = true)
    (h : Step consumer p q) (hscoped : p.Scoped store) (havoids : p.Avoids store name) :
    q.Avoids store name := by
  induction h with
  | rule h => exact avoids_of_rule hname h hscoped havoids
  | restate h => exact havoids
  | filter _ _ ih | ofType _ _ ih | sort _ _ ih => exact ih hscoped.2 havoids
  | project columns _ ih => exact ⟨havoids.1, ih hscoped.2.2 havoids.2⟩
  | skip _ _ ih | take _ _ ih => exact ih hscoped havoids

/-- Nor do several steps. -/
theorem avoids_of_steps {consumer : Consumer} {name : String} (hname : neverFresh name = true)
    (h : Relation.ReflTransGen (Step consumer) p q) (hscoped : p.Scoped store)
    (hrows : (store.rows p.relation).length < UInt64.size) (havoids : p.Avoids store name) :
    q.Avoids store name := by
  induction h with
  | refl => exact havoids
  | tail hsteps hstep ih =>
    obtain ⟨-, hmid, -⟩ := widened_of_steps hsteps hscoped hrows
    exact avoids_of_step hname hstep hmid ih

end Steps

/-! ## Main statement -/

/-- **Lifting keeps the meaning.**  However many sweeps are allowed, and whether or not they reach a
plan to which no rule applies: where lifting succeeds, the lifted plan has the visible columns of
the plan, in the same order, and over every store exactly its answers. -/
theorem lift_preserves_answers (store : Store) (plan lifted : Plan) (limit : ℕ)
    (hscoped : plan.Scoped store) (hrows : (store.rows plan.relation).length < 2 ^ 64)
    (hlift : plan.lift limit = .ok lifted) :
    visibleNames (lifted.outputs store) = visibleNames (plan.outputs store) ∧
      lifted.answers store = plan.answers store := by
  obtain ⟨-, rfl, -⟩ := lift_eq_ok_iff.mp hlift
  obtain ⟨hwide, -, -⟩ := widened_of_steps (sweepUpTo_steps limit plan) hscoped hrows
  exact ⟨hwide.visibleNames_eq, hwide.answers_eq⟩

/-- A store with one entity set of two owners and with one type, the owners of a known name. -/
def ownersStore : Store where
  engine := Engine.standard
  columns _ := ["Id", "Name"]
  rows
    | "Owners" => [fun | "Id" => .int 1 | _ => .string "Ada", fun | "Id" => .int 2 | _ => .null]
    | _ => []
  typeReads _ := ["Name"]
  isOfType _ row := !(row "Name").isNull
  isOfType_congr h := by rw [h "Name" (by simp)]

/-- The names of the first owners of a type by descending number; the number is carried along. -/
def firstNames : Plan :=
  ofType "Named" (project [.passThrough "Name"]
    (take 5 (sort [⟨.column "Id", .desc⟩] (source "Owners"))))

/-- The number comes up in a hidden column, and the answers stay the same. -/
theorem lift_preserves_answers_firstNames :
    ∃ lifted, firstNames.lift 8 = .ok lifted ∧ firstNames.Scoped ownersStore ∧
      (ownersStore.rows firstNames.relation).length < 2 ^ 64 ∧
      visibleNames (lifted.outputs ownersStore) = visibleNames (firstNames.outputs ownersStore) ∧
      lifted.answers ownersStore = firstNames.answers ownersStore :=
  ⟨_, rfl, by decide, by decide,
    lift_preserves_answers ownersStore firstNames _ 8 (by decide) (by decide) rfl⟩

end Plan

end EntityQuery
