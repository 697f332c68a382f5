/-
# Preparing again

A prepared plan may be prepared once more.  Its cuts stand on their sorts, it has no type filters
left, and its source is restricted, so that adjusting its filters and restricting its source again
is all that can happen to it.

* `Plan.Ready`: what preparing leaves, and what preparing again relies on;
* `Plan.prepare_native_stable`: in the engine's reading of nulls a prepared plan prepared again has
  the same operators, the same conjuncts in every filter and the same text;
* `Plan.prepare_host_again`: in the host reading preparing again succeeds, and has these if no two
  filters share a conjunct.  Where two filters do, merging them may take an expanded comparison
  apart, which is then expanded a second time (`Plan.prepare_host_again_knownOwner`).
-/
import EntityQuery.Proofs.Compiler
import EntityQuery.Proofs.Stability.Expansion
import EntityQuery.Proofs.Stability.Restriction

namespace EntityQuery.Plan

open Relation

/-! ## Prepared plans -/

/-- What preparing leaves: a plan over a known entity set, fit to become a statement, whose source
is restricted if a discriminator tells the types of the set apart. -/
structure Ready (model : Model) (set : EntitySet) (plan : Plan) : Prop where
  relation_eq : model.relation plan.relation = .ok set
  typeFree : plan.typeFree = true
  ordered : plan.checkOrdered = .ok ()
  canonical : plan.checkCanonical = .ok ()
  guarded : ∀ e, model.extentPredicate? set = some e → plan.GuardedBy e.OpensWith none

section Ready

variable {model : Model} {set : EntitySet} {options : Options} {plan resolved prepared : Plan}

/-- Resolving keeps the source and finds its entity set. -/
theorem relation_of_resolveUnder {shaping : Shaping} {outer : Option String}
    (h : plan.resolveUnder model shaping outer = .ok resolved) :
    resolved.relation = plan.relation ∧ ∃ set, model.relation plan.relation = .ok set := by
  induction plan generalizing outer resolved with
  | source relation =>
    obtain ⟨set, hset, h⟩ := exists_ok_of_bind_eq_ok h
    refine ⟨?_, set, hset⟩
    split at h
    · obtain rfl := Except.ok.inj h
      rfl
    · obtain rfl := Except.ok.inj h
      rfl
  | filter _ p ih | project _ p ih | sort _ p ih | skip _ p ih | take _ p ih =>
    obtain ⟨input, hinput, rfl⟩ := exists_ok_of_bind_pure_eq_ok h
    obtain ⟨hrelation, hset⟩ := ih hinput
    exact ⟨hrelation, hset⟩
  | ofType subtype p ih =>
    obtain ⟨found, e, input, -, -, hinput, rfl⟩ := resolveUnder_ofType_eq_ok h
    obtain ⟨hrelation, hset⟩ := ih hinput
    have hrestricted : (restrictedBy model found e input).relation = p.relation := by
      unfold restrictedBy
      split <;> exact hrelation
    refine ⟨?_, hset⟩
    cases outer <;> exact hrestricted

/-- What lifting keeps of a resolved plan. -/
theorem ready_of_steps {restriction : Option Expr} {lifted : Plan}
    (h : ReflTransGen (Step .needsOrder) resolved lifted) (hfree : resolved.typeFree = true)
    (hguarded : ∀ e, restriction = some e → resolved.GuardedBy e.OpensWith none) :
    lifted.relation = resolved.relation ∧ lifted.typeFree = true ∧
      ∀ e, restriction = some e → lifted.GuardedBy e.OpensWith none := by
  induction h with
  | refl => exact ⟨rfl, hfree, hguarded⟩
  | tail _ hstep ih =>
    obtain ⟨hrelation, hfree, hguarded⟩ := ih
    refine ⟨(relation_of_step hstep).trans hrelation, typeFree_of_step hstep hfree, fun e he => ?_⟩
    exact guardedBy_of_step (fun _ outer hinner => hinner.fuse outer) hstep (hguarded e he)

/-- A prepared plan is ready. -/
theorem ready_of_prepare (h : plan.prepare model options = .ok prepared) :
    ∃ set, prepared.Ready model set := by
  obtain ⟨resolved, hresolve, hlift⟩ := prepare_eq_ok h
  obtain ⟨hordered, rfl, hcanonical⟩ := lift_eq_ok_iff.mp hlift
  obtain ⟨hrelation, set, hset⟩ := relation_of_resolveUnder hresolve
  have hrestricted : ∀ e, model.extentPredicate? set = some e →
      resolved.GuardedBy e.OpensWith none :=
    fun e he => guardedBy_of_resolveUnder hset he (.refl e) hresolve none
  obtain ⟨hsame, hfree, hguarded⟩ := ready_of_steps (sweepUpTo_steps options.sweeps resolved)
    (typeFree_of_resolveUnder hresolve) hrestricted
  exact ⟨set, by rw [hsame, hrelation, hset], hfree, (ordered_sweepUpTo hordered _).1, hcanonical,
    hguarded⟩

/-- A ready plan has a text. -/
theorem Ready.emits (h : prepared.Ready model set) : ∃ sql, prepared.emit model = .ok sql := by
  obtain ⟨sql, hsql, -⟩ :=
    emit_regrouped h.relation_eq h.typeFree h.canonical (Regrouped.refl prepared)
  exact ⟨sql, hsql⟩

/-- **Preparing again** succeeds, and but for merging the restriction into the filter on the source
it only adjusts. -/
theorem Ready.prepare_again {R : Expr → Expr → Prop} (h : prepared.Ready model set)
    (options : Options) (hsweeps : 0 < options.sweeps) (hsettled : Settled .needsOrder prepared)
    (hR : ∀ e, R e e)
    (hguarded : ∀ e, model.extentPredicate? set = some e →
      (prepared.adjust options.nulls).GuardedBy (fun d => R d (fuse e d)) none) :
    ∃ again, prepared.prepare model options = .ok again ∧
      Refiltered R (prepared.adjust options.nulls) again := by
  have hadjust := refiltered_adjust options.nulls prepared
  have hset : model.relation (prepared.adjust options.nulls).relation = .ok set := by
    rw [relation_adjust, h.relation_eq]
  have hresolve := resolveUnder_of_typeFree hset (hadjust.typeFree_eq.trans h.typeFree)
    options.shaping none
  obtain ⟨again, hlift, hagain⟩ := lift_restrictSource hsweeps hR
    (hadjust.checkOrdered_eq.trans h.ordered) (hadjust.checkCanonical_eq.trans h.canonical)
    (hadjust.settled hsettled) hguarded
  refine ⟨again, ?_, hagain⟩
  simp only [prepare, h.ordered, resolve, hresolve, bind, Except.bind]
  exact hlift

/-- Preparing a plan again that is adjusted already gives the same text. -/
theorem Ready.prepare_again_regrouped (h : prepared.Ready model set) (options : Options)
    (hsweeps : 0 < options.sweeps) (hsettled : Settled .needsOrder prepared)
    (hadjusted : prepared.adjust options.nulls = prepared) :
    ∃ again sql, prepared.prepare model options = .ok again ∧ prepared.Regrouped again ∧
      prepared.emit model = .ok sql ∧ again.emit model = .ok sql := by
  have hguarded : ∀ e, model.extentPredicate? set = some e →
      (prepared.adjust options.nulls).GuardedBy
        (fun d => (fuse e d).conjuncts = d.conjuncts) none := by
    intro e he
    rw [hadjusted]
    exact (h.guarded e he).refiltered (.refl (fun _ => rfl) prepared)
      (fun d _ hd hopens => hd ▸ hopens.conjuncts_fuse_eq) nofun
  obtain ⟨again, hprepare, hagain⟩ := h.prepare_again
    (R := fun d d' => d'.conjuncts = d.conjuncts) options hsweeps hsettled (fun _ => rfl) hguarded
  rw [hadjusted] at hagain
  obtain ⟨sql, hsql, hsql'⟩ := emit_regrouped h.relation_eq h.typeFree h.canonical hagain
  exact ⟨again, sql, hprepare, hagain, hsql, hsql'⟩

end Ready

/-! ## The engine's reading of nulls -/

/-- **Preparing is stable in the engine's reading of nulls.**  A prepared plan to which no rule
applies, prepared again with at least one sweep, comes out as it was but for the grouping of the
conjuncts of its filters, and has the same text. -/
theorem prepare_native_stable (model : Model) (shaping : Shaping) (sweeps : ℕ)
    (plan prepared : Plan) (hsweeps : 0 < sweeps)
    (hprepare : plan.prepare model { nulls := .native, shaping, sweeps } = .ok prepared)
    (hsettled : (prepared.sweep .needsOrder).2 = false) :
    ∃ again sql, prepared.prepare model { nulls := .native, shaping, sweeps } = .ok again ∧
      prepared.Regrouped again ∧ prepared.emit model = .ok sql ∧ again.emit model = .ok sql := by
  obtain ⟨set, hready⟩ := ready_of_prepare hprepare
  exact hready.prepare_again_regrouped _ hsweeps hsettled (adjust_native prepared)

/-- A model of posts in one table with other things.  A post is told by its kind and by not being
deleted. -/
def postsModel : Model where
  sets := [
    { name := "Posts", table := "dbo.Entries", root := "Post", discriminator := some "Kind" }]
  types := [
    { name := "Post", properties := [⟨"Id", "Id"⟩, ⟨"Title", "Title"⟩, ⟨"Deleted", "Deleted"⟩],
      conditions := [⟨"Kind", .equals (.string "post")⟩, ⟨"Deleted", .isNull⟩] }]

/-- The titles of the latest posts of a name; that they are not deleted is asked for once more. -/
def latestTitles : Plan :=
  project [.passThrough "Title"] (take 3 (sort [⟨.column "Id", .desc⟩]
    (filter (.and (.isNull (.column "Deleted"))
      (.and (.binary .gt (.column "Id") (.literal (.int 10)))
        (.binary .eq (.column "Title") (.literal (.string "News"))))) (source "Posts"))))

theorem prepare_native_stable_latestTitles :
    ∃ prepared, latestTitles.prepare postsModel { nulls := .native } = .ok prepared ∧
      (prepared.sweep .needsOrder).2 = false ∧
      ∃ again sql, prepared.prepare postsModel { nulls := .native } = .ok again ∧
        prepared.Regrouped again ∧ prepared.emit postsModel = .ok sql ∧
        again.emit postsModel = .ok sql :=
  ⟨_, rfl, by decide +kernel,
    prepare_native_stable _ _ 32 latestTitles _ (by decide) rfl (by decide +kernel)⟩

/-! ## The host reading of nulls -/

/-- **Preparing again in the host reading of nulls.**  A prepared plan to which no rule applies can
be prepared again with at least one sweep, and both have a text.  It comes out as it was but for the
grouping of the conjuncts of its filters, with the same text, if no two filters of the adjusted and
resolved plan have a conjunct in common; or if at any rate no expanded comparison was taken apart,
so that there is nothing to adjust. -/
theorem prepare_host_again (model : Model) (shaping : Shaping) (sweeps : ℕ)
    (plan resolved prepared : Plan) (hsweeps : 0 < sweeps)
    (hresolve : (plan.adjust .host).resolve model shaping = .ok resolved)
    (hprepare : plan.prepare model { nulls := .host, shaping, sweeps } = .ok prepared)
    (hsettled : (prepared.sweep .needsOrder).2 = false) :
    ∃ again sql sql', prepared.prepare model { nulls := .host, shaping, sweeps } = .ok again ∧
      prepared.emit model = .ok sql ∧ again.emit model = .ok sql' ∧
      (resolved.DistinctFilters ∨ prepared.adjust .host = prepared →
        prepared.Regrouped again ∧ sql' = sql) := by
  obtain ⟨set, hready⟩ := ready_of_prepare hprepare
  by_cases hadjusted : prepared.adjust .host = prepared
  · obtain ⟨again, sql, hagain, hsame, hsql, hsql'⟩ :=
      hready.prepare_again_regrouped { nulls := .host, shaping, sweeps } hsweeps hsettled hadjusted
    exact ⟨again, sql, sql, hagain, hsql, hsql', fun _ => ⟨hsame, rfl⟩⟩
  · obtain ⟨again, hagain, -⟩ := hready.prepare_again (R := fun _ _ => True)
      { nulls := .host, shaping, sweeps } hsweeps hsettled (fun _ => trivial)
      fun e he => (hready.guarded e he).refiltered (refiltered_adjust .host prepared)
        (fun _ _ _ _ => trivial) nofun
    obtain ⟨_, hready'⟩ := ready_of_prepare hagain
    obtain ⟨sql, hsql⟩ := hready.emits
    obtain ⟨sql', hsql'⟩ := hready'.emits
    refine ⟨again, sql, sql', hagain, hsql, hsql', fun hwhole => absurd ?_ hadjusted⟩
    -- filters that are apart are merged whole, so that a plan with such filters stays adjusted
    refine hwhole.elim (fun hdistinct => ?_) id
    obtain ⟨found, hfound, hlift⟩ := prepare_eq_ok hprepare
    obtain rfl : found = resolved := Except.ok.inj (hfound.symm.trans hresolve)
    obtain ⟨-, rfl, -⟩ := lift_eq_ok_iff.mp hlift
    exact adjust_sweepUpTo hdistinct (adjusted_of_resolve hresolve) sweeps

/-- The posts of a name among the recent ones, which are named by a column that may be null. -/
def recentNews : Plan :=
  sort [⟨.column "Id", .asc⟩]
    (filter (.and (.binary .eq (.column "Title") (.literal (.string "News")))
      (.binary .ne (.column "Id") (.literal (.int 7))))
      (filter (.binary .gt (.column "Id") (.literal (.int 10))) (source "Posts")))

theorem prepare_host_again_recentNews :
    ∃ resolved prepared, (recentNews.adjust .host).resolve postsModel .uniform = .ok resolved ∧
      recentNews.prepare postsModel {} = .ok prepared ∧ (prepared.sweep .needsOrder).2 = false ∧
      resolved.DistinctFilters ∧
      ∃ again sql, prepared.prepare postsModel {} = .ok again ∧ prepared.Regrouped again ∧
        prepared.emit postsModel = .ok sql ∧ again.emit postsModel = .ok sql := by
  refine ⟨_, _, rfl, rfl, by decide +kernel, by decide +kernel, ?_⟩
  obtain ⟨again, sql, sql', hagain, hsql, hsql', hsame⟩ :=
    prepare_host_again postsModel .uniform 32 recentNews _ _ (by decide) rfl rfl (by decide +kernel)
  obtain ⟨hregrouped, rfl⟩ := hsame (Or.inl (by decide +kernel))
  exact ⟨again, sql', hagain, hregrouped, hsql, hsql'⟩

/-- One owner among those that have a number. -/
def knownOwner : Plan :=
  filter (.binary .eq (.column "Id") (.literal (.int 0)))
    (filter (.isNotNull (.column "Id")) (source "Owners"))

/-- Two filters with a conjunct in common: the null test of the expanded equality is left out when
they are merged, and is put back when the plan is prepared again. -/
theorem prepare_host_again_knownOwner :
    ∃ prepared again sql sql', knownOwner.prepare ownersModel {} = .ok prepared ∧
      (prepared.sweep .needsOrder).2 = false ∧ prepared.prepare ownersModel {} = .ok again ∧
      prepared.emit ownersModel = .ok sql ∧ again.emit ownersModel = .ok sql' ∧ sql' ≠ sql :=
  ⟨_, _, _, _, rfl, by decide +kernel, rfl, rfl, rfl, by decide +kernel⟩

end EntityQuery.Plan
