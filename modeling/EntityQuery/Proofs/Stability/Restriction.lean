/-
# Restricting a source again

Resolving restricts a source whose types a discriminator tells apart.  Resolving a plan that was
resolved before therefore puts the restriction below a filter that has it already, and merging the
two filters has to leave out exactly what is there twice.  It does: lifting keeps the conjuncts of
the restriction at the front of the filter on the source, without a repetition, and merging such a
filter with the restriction gives back its conjuncts in their order.

* `conjuncts_fuse`: the conjuncts of merged filters;
* `Plan.guardedBy_of_resolveUnder`, `Plan.guardedBy_of_step`: the filter on the source opens with
  the restriction after resolving, and after every step of lifting;
* `Plan.resolveUnder_of_typeFree`: what resolving does to a plan without type filters;
* `Plan.lift_restrictSource`: lifting a settled plan with its source restricted again changes only
  what the filter on the source says, and by nothing but a merge.
-/
import EntityQuery.Proofs.Ordering.Preservation
import EntityQuery.Proofs.Stability.Text

namespace EntityQuery

/-! ## Merged conjuncts -/

namespace Expr

/-- Conjuncts that are joined are the conjuncts of the result. -/
theorem conjuncts_joinedBy {es : List Expr} {e : Expr} (h : joinedBy .and es = some e)
    (hes : ∀ c ∈ es, c.conjuncts = [c]) : e.conjuncts = es := by
  have hfold : ∀ (cs : List Expr) (a : Expr), (∀ c ∈ cs, c.conjuncts = [c]) →
      (cs.foldl and a).conjuncts = a.conjuncts ++ cs := by
    intro cs
    induction cs with
    | nil => exact fun a _ => (List.append_nil _).symm
    | cons c cs ih =>
      intro a hcs
      rw [List.foldl_cons, ih _ fun d hd => hcs d (List.mem_cons_of_mem c hd), conjuncts_and,
        hcs c List.mem_cons_self, List.append_assoc]
      rfl
  cases es with
  | nil => cases h
  | cons c cs =>
    obtain rfl := Option.some.inj h
    rw [hfold cs c fun d hd => hes d (List.mem_cons_of_mem c hd), hes c List.mem_cons_self]
    rfl

end Expr

/-- Merged filters have the conjuncts of the inner one and then those that the outer one adds. -/
theorem conjuncts_fuse (inner outer : Expr) :
    (fuse inner outer).conjuncts = inner.conjuncts ++ addedConjuncts inner outer := by
  unfold fuse
  simp only
  split
  next =>
    rw [show outer.conjuncts.filter (!inner.conjuncts.contains ·) = addedConjuncts inner outer
      from rfl]
    split
    next rest hrest =>
      have hadded : ∀ c ∈ addedConjuncts inner outer, c.conjuncts = [c] := fun c hc =>
        Expr.chain_of_mem_chain (List.mem_of_mem_filter hc)
      rw [Expr.conjuncts_and, Expr.conjuncts_joinedBy hrest hadded]
    next hnone =>
      cases hadded : addedConjuncts inner outer with
      | nil => exact (List.append_nil _).symm
      | cons c cs =>
        rw [hadded] at hnone
        cases hnone
  next hdisjoint =>
    have hadded : addedConjuncts inner outer = outer.conjuncts := by
      rw [addedConjuncts, List.filter_eq_self]
      simpa using hdisjoint
    rw [Expr.conjuncts_and, hadded]

/-- A predicate whose first conjuncts are those of a restriction, and that does not repeat them. -/
def Expr.OpensWith (restriction e : Expr) : Prop :=
  ∃ rest, e.conjuncts = restriction.conjuncts ++ rest ∧ ∀ c ∈ rest, c ∉ restriction.conjuncts

namespace Expr.OpensWith

variable {restriction e : Expr}

theorem refl (restriction : Expr) : OpensWith restriction restriction :=
  ⟨[], (List.append_nil _).symm, fun _ h => absurd h List.not_mem_nil⟩

/-- Conjuncts that are fused in stand behind those of the restriction. -/
theorem fuse (h : OpensWith restriction e) (outer : Expr) :
    OpensWith restriction (fuse e outer) := by
  obtain ⟨rest, hconjuncts, hrest⟩ := h
  refine ⟨rest ++ addedConjuncts e outer, ?_, ?_⟩
  · rw [conjuncts_fuse, hconjuncts, List.append_assoc]
  · intro c hc hknown
    rcases List.mem_append.mp hc with hc | hc
    · exact hrest c hc hknown
    · have hnew : c ∉ e.conjuncts := by simpa using (List.mem_filter.mp hc).2
      rw [hconjuncts] at hnew
      exact hnew (List.mem_append_left _ hknown)

/-- **Restricting again** leaves the conjuncts as they are. -/
theorem conjuncts_fuse_eq (h : OpensWith restriction e) :
    (EntityQuery.fuse restriction e).conjuncts = e.conjuncts := by
  obtain ⟨rest, hconjuncts, hrest⟩ := h
  have hknown : restriction.conjuncts.filter (!restriction.conjuncts.contains ·) = [] := by
    simp
  have hnew : rest.filter (!restriction.conjuncts.contains ·) = rest := by
    simpa using hrest
  rw [conjuncts_fuse, addedConjuncts, hconjuncts, List.filter_append, hknown, hnew,
    List.nil_append]

end Expr.OpensWith

namespace Plan

/-! ## The filter on the source -/

/-- A filter with the property stands right on the source; `above` is the predicate of the filter
that the plan is the input of, if it is the input of one. -/
def GuardedBy (P : Expr → Prop) : (above : Option Expr) → Plan → Prop
  | above, source _ => ∃ e, above = some e ∧ P e
  | _, filter e p => p.GuardedBy P (some e)
  | _, project _ p | _, sort _ p | _, skip _ p | _, take _ p | _, ofType _ p => p.GuardedBy P none

section Guarded

variable {P Q : Expr → Prop} {R : Expr → Expr → Prop} {above above' : Option Expr} {p q : Plan}

/-- The filter above may be exchanged for one that is as good. -/
theorem GuardedBy.of_above (h : p.GuardedBy P above)
    (habove : ∀ e, above = some e → P e → ∃ e', above' = some e' ∧ P e') :
    p.GuardedBy P above' := by
  cases p with
  | source relation =>
    obtain ⟨e, he, hP⟩ := h
    exact habove e he hP
  | filter | project | sort | skip | take | ofType => exact h

/-- A filter guards a source if it stands on it; otherwise something below does. -/
theorem guardedBy_filter {e : Expr} (h : (filter e p).GuardedBy P above) :
    (∃ relation, p = source relation ∧ P e) ∨ p.GuardedBy P none := by
  cases p with
  | source relation =>
    obtain ⟨d, hd, hP⟩ := h
    obtain rfl := Option.some.inj hd
    exact Or.inl ⟨relation, rfl, hP⟩
  | filter | project | sort | skip | take | ofType => exact Or.inr h

/-- Guards are kept by a change of filters that respects them. -/
theorem GuardedBy.refiltered (h : p.GuardedBy P above) (hpq : Refiltered R p q)
    (hR : ∀ e e', R e e' → P e → Q e')
    (habove : ∀ e, above = some e → P e → ∃ e', above' = some e' ∧ Q e') :
    q.GuardedBy Q above' := by
  have hnone : ∀ e, none = some e → P e → ∃ e', none = some e' ∧ Q e' := nofun
  induction hpq generalizing above above' with
  | source relation =>
    obtain ⟨e, he, hP⟩ := h
    exact habove e he hP
  | @filter e e' _ _ he _ ih =>
    refine ih h fun d hd hP => ⟨e', rfl, hR d e' ?_ hP⟩
    rwa [← Option.some.inj hd]
  | project _ _ ih | sort _ _ ih | skip _ _ ih | take _ _ ih | ofType _ _ ih => exact ih h hnone

/-! ### Lifting -/

/-- No rule takes the guard from the source: a filter that is merged into it stands outside. -/
theorem guardedBy_of_rule (hP : ∀ inner outer, P inner → P (fuse inner outer)) (h : Rule p q)
    (hp : p.GuardedBy P above) : q.GuardedBy P above := by
  cases h with
  | fuseFilters outer inner p =>
    refine GuardedBy.of_above (p := p) hp fun e he hPe => ⟨fuse inner outer, rfl, hP inner outer ?_⟩
    rwa [Option.some.inj he]
  -- the guard stands below the sort that the filter passes
  | sortOverFilter predicate keys p => exact GuardedBy.of_above (p := p) hp nofun
  | sortOverType | mergeProjections | sortOverProjection | projectionBelowSkip
  | projectionBelowTake | dropShadowedSort | mergeSkips | skipBelowTake | mergeTakes => exact hp

/-- Guards are kept by every step, since filters are fused behind them. -/
theorem guardedBy_of_step {consumer : Consumer}
    (hP : ∀ inner outer, P inner → P (fuse inner outer)) (h : Step consumer p q)
    (hp : p.GuardedBy P above) : q.GuardedBy P above := by
  induction h generalizing above with
  | rule h => exact guardedBy_of_rule hP h hp
  | restate h =>
    -- the keys are those of a skip or a take, below which no filter stands
    unfold truncationKeys at h
    split at h
    · exact hp
    · exact hp
    · exact hp
    · cases h
  | filter _ _ ih | ofType _ _ ih | project _ _ ih | sort _ _ ih | skip _ _ ih | take _ _ ih =>
    exact ih hp

/-- No step adds a type filter. -/
theorem typeFree_of_step {consumer : Consumer} (h : Step consumer p q)
    (hp : p.typeFree = true) : q.typeFree = true := by
  induction h with
  | rule h => cases h <;> exact hp
  | restate h => exact hp
  | ofType _ _ ih => cases hp
  | filter _ _ ih | project _ _ ih | sort _ _ ih | skip _ _ ih | take _ _ ih => exact ih hp

/-! ### Resolving -/

variable {model : Model} {shaping : Shaping} {outer : Option String} {set : EntitySet}
  {restriction : Expr}

/-- A resolved plan has the restriction of its entity set on the source. -/
theorem guardedBy_of_resolveUnder (hset : model.relation p.relation = .ok set)
    (hrestriction : model.extentPredicate? set = some restriction) (hP : P restriction)
    (h : p.resolveUnder model shaping outer = .ok q) (above : Option Expr) :
    q.GuardedBy P above := by
  induction p generalizing outer q above with
  | source relation =>
    obtain ⟨found, hfound, h⟩ := exists_ok_of_bind_eq_ok h
    obtain rfl : found = set := Except.ok.inj (hfound.symm.trans hset)
    rw [hrestriction] at h
    obtain rfl := Except.ok.inj h
    exact ⟨restriction, rfl, hP⟩
  | filter _ p ih | project _ p ih | sort _ p ih | skip _ p ih | take _ p ih =>
    obtain ⟨input, hinput, rfl⟩ := exists_ok_of_bind_pure_eq_ok h
    have hguarded : ∀ above, input.GuardedBy P above := ih hset hinput
    exact hguarded _
  | ofType subtype p ih =>
    obtain ⟨found, e, input, -, -, hinput, rfl⟩ := resolveUnder_ofType_eq_ok h
    have hguarded : ∀ above, input.GuardedBy P above := ih hset hinput
    have hrestricted : ∀ above, (restrictedBy model found e input).GuardedBy P above := by
      intro above
      unfold restrictedBy
      split <;> exact hguarded _
    cases outer <;> exact hrestricted _

end Guarded

/-- The plan with its source restricted. -/
def restrictSource (restriction : Option Expr) : Plan → Plan
  | source relation => restriction.elim (source relation) (filter · (source relation))
  | filter e p => filter e (p.restrictSource restriction)
  | project columns p => project columns (p.restrictSource restriction)
  | sort keys p => sort keys (p.restrictSource restriction)
  | skip count p => skip count (p.restrictSource restriction)
  | take count p => take count (p.restrictSource restriction)
  | ofType subtype p => ofType subtype (p.restrictSource restriction)

theorem restrictSource_none (plan : Plan) : plan.restrictSource none = plan := by
  induction plan with
  | source relation => rfl
  | filter _ p ih | project _ p ih | sort _ p ih | skip _ p ih | take _ p ih | ofType _ p ih =>
    rw [restrictSource, ih]

/-- Resolving a plan without type filters only restricts its source. -/
theorem resolveUnder_of_typeFree {model : Model} {set : EntitySet} {p : Plan}
    (hset : model.relation p.relation = .ok set) (hfree : p.typeFree = true) (shaping : Shaping)
    (outer : Option String) :
    p.resolveUnder model shaping outer = .ok (p.restrictSource (model.extentPredicate? set)) := by
  induction p generalizing outer with
  | source relation =>
    have hfound : model.relation relation = .ok set := hset
    cases hrestriction : model.extentPredicate? set with
    | none | some =>
      simp only [resolveUnder, hfound, bind, Except.bind, hrestriction]
      rfl
  | filter _ p ih | project _ p ih | sort _ p ih | skip _ p ih | take _ p ih =>
    rw [resolveUnder, ih hset hfree]
    rfl
  | ofType subtype p ih => cases hfree

/-! ## Lifting a settled plan with its source restricted again -/

section Lifted

variable {R : Expr → Expr → Prop} {consumer : Consumer} {p : Plan}

/-- A restriction is no order and needs none. -/
theorem checkOrdered_restrictSource (restriction : Option Expr) (plan : Plan) :
    (plan.restrictSource restriction).checkOrdered = plan.checkOrdered := by
  have horder : ∀ p : Plan, (p.restrictSource restriction).orderSource = p.orderSource := by
    intro p
    induction p with
    | source relation => cases restriction <;> rfl
    | sort keys p ih => rfl
    | filter _ p ih | project _ p ih | skip _ p ih | take _ p ih | ofType _ p ih => exact ih
  induction plan with
  | source relation => cases restriction <;> rfl
  | filter _ p ih | project _ p ih | sort _ p ih | ofType _ p ih => exact ih
  | skip count p ih | take count p ih =>
    rw [restrictSource, checkOrdered, checkOrdered, horder, ih]

/-- Nothing is restated where order is not needed. -/
theorem restate_eq_self {plan : Plan} {applied : Bool}
    (h : consumer = .needsOrder → plan.truncationKeys = none) :
    restate consumer (plan, applied) = (plan, applied) := by
  cases consumer with
  | needsOrder => simp [restate, h rfl]
  | ordered | window => rfl

/-- **One sweep merges the restriction** into the filter on the source and does nothing else. -/
theorem sweep_restrictSource {restriction : Expr} (hR : ∀ e, R e e)
    (hguarded : p.GuardedBy (fun e => R e (fuse restriction e)) none)
    (hsettled : Settled consumer p) :
    ∃ q, (p.restrictSource (some restriction)).sweep consumer = (q, true) ∧ Refiltered R p q := by
  induction p generalizing consumer with
  | source relation =>
    obtain ⟨_, hnone, -⟩ := hguarded
    cases hnone
  | filter e p ih =>
    rcases guardedBy_filter hguarded with ⟨relation, rfl, he⟩ | hguarded
    -- only the filter on the source meets the restriction
    · exact ⟨filter (fuse restriction e) (source relation), rfl, .filter he (.source relation)⟩
    · obtain ⟨q, hsweep, hq⟩ := ih hguarded (settled_filter.mp hsettled).1
      have hpq : Refiltered R (filter e p) (filter e q) := .filter (hR e) hq
      have hrule := (settled_filter.mp (hpq.settled hsettled)).2
      exact ⟨filter e q, by simp only [restrictSource, sweep, hsweep, hrule, settle], hpq⟩
  | project columns p ih =>
    obtain ⟨q, hsweep, hq⟩ := ih hguarded (settled_project.mp hsettled).1
    have hpq : Refiltered R (project columns p) (project columns q) := .project columns hq
    have hrule := (settled_project.mp (hpq.settled hsettled)).2
    exact ⟨project columns q, by simp only [restrictSource, sweep, hsweep, hrule, settle], hpq⟩
  | sort keys p ih =>
    obtain ⟨q, hsweep, hq⟩ := ih hguarded (settled_sort.mp hsettled).1
    have hpq : Refiltered R (sort keys p) (sort keys q) := .sort keys hq
    have hrule := (settled_sort.mp (hpq.settled hsettled)).2
    exact ⟨sort keys q, by simp only [restrictSource, sweep, hsweep, hrule, settle], hpq⟩
  | ofType subtype p ih =>
    obtain ⟨q, hsweep, hq⟩ := ih hguarded (settled_ofType.mp hsettled).1
    have hpq : Refiltered R (ofType subtype p) (ofType subtype q) := .ofType subtype hq
    have hrule := (settled_ofType.mp (hpq.settled hsettled)).2
    exact ⟨ofType subtype q, by simp only [restrictSource, sweep, hsweep, hrule, settle], hpq⟩
  | skip count p ih =>
    obtain ⟨q, hsweep, hq⟩ := ih hguarded (settled_skip.mp hsettled).1
    have hpq : Refiltered R (skip count p) (skip count q) := .skip count hq
    obtain ⟨-, hrule, hkeys⟩ := settled_skip.mp (hpq.settled hsettled)
    refine ⟨skip count q, ?_, hpq⟩
    simp only [restrictSource, sweep, hsweep, hrule, settle]
    exact restate_eq_self hkeys
  | take count p ih =>
    obtain ⟨q, hsweep, hq⟩ := ih hguarded (settled_take.mp hsettled).1
    have hpq : Refiltered R (take count p) (take count q) := .take count hq
    obtain ⟨-, hrule, hkeys⟩ := settled_take.mp (hpq.settled hsettled)
    refine ⟨take count q, ?_, hpq⟩
    simp only [restrictSource, sweep, hsweep, hrule, settle]
    exact restate_eq_self hkeys

/-- A settled plan is swept into itself. -/
theorem sweepUpTo_of_settled (hsettled : Settled .needsOrder p) (limit : ℕ) :
    sweepUpTo limit p = p := by
  cases limit with
  | zero => rfl
  | succ limit => simp only [sweepUpTo, hsettled.sweep_eq]

/-- **Lifting merges the restriction** into the filter on the source and does nothing else, if it
may sweep at all. -/
theorem lift_restrictSource {restriction : Option Expr} {limit : ℕ} (hlimit : 0 < limit)
    (hR : ∀ e, R e e) (hordered : p.checkOrdered = .ok ()) (hcanonical : p.checkCanonical = .ok ())
    (hsettled : Settled .needsOrder p)
    (hguarded : ∀ e, restriction = some e → p.GuardedBy (fun d => R d (fuse e d)) none) :
    ∃ q, (p.restrictSource restriction).lift limit = .ok q ∧ Refiltered R p q := by
  have hordered' : (p.restrictSource restriction).checkOrdered = .ok () :=
    (checkOrdered_restrictSource restriction p).trans hordered
  suffices h : ∃ q, sweepUpTo limit (p.restrictSource restriction) = q ∧ Refiltered R p q by
    obtain ⟨q, hq, hpq⟩ := h
    exact ⟨q, lift_eq_ok_iff.mpr ⟨hordered', hq.symm, hpq.checkCanonical_eq.trans hcanonical⟩, hpq⟩
  cases restriction with
  | none =>
    rw [restrictSource_none]
    exact ⟨p, sweepUpTo_of_settled hsettled limit, .refl hR p⟩
  | some e =>
    obtain ⟨q, hsweep, hpq⟩ := sweep_restrictSource hR (hguarded e rfl) hsettled
    obtain ⟨limit, rfl⟩ := Nat.exists_eq_add_of_lt hlimit
    refine ⟨q, ?_, hpq⟩
    simp only [sweepUpTo, hsweep]
    exact sweepUpTo_of_settled (hpq.settled hsettled) _

end Lifted

end Plan

end EntityQuery
